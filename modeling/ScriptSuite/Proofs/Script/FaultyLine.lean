import ScriptSuite.Proofs.Script.Marking
import ScriptSuite.Proofs.Text.IllFormed
import ScriptSuite.Script.Source

/-!
# Proofs/Script/FaultyLine — the line of the first ill-formed octet

A file that is not UTF-8 is refused for a line before it has any lines: the number comes from the
octets.  The lenient reading of the same file has lines, and the number is that of the one in which
U+FFFD stands for the first ill-formed part (`Utf8.decode_eq_ok_or_faulty`).  Lines of the text
and line feeds of its octets are counted alike because a place in a text is a place in the line
behind as many others as there are line feeds before it (`Line.exists_isLineAt`).
-/

namespace ScriptSuite

namespace Line

/-- **The line at a place in a text**: it is the one that holds the character `c` behind the
characters `behind`, and the character stands in it. -/
def IsLineAt (l : Line) (text : String) (behind : List Char) (c : Char) : Prop :=
  ∃ before front back after,
    lines text.toList = before ++ (front ++ c :: back) :: after ∧
      behind = before.flatMap (· ++ ['\n']) ++ front ∧
      (ofText text)[before.length]? = some l ∧
      l.text.toList = trimStart front ++ c :: trimEnd back

/-- **Every character that is not blank stands in a line**, whose number counts the line feeds
before it. -/
theorem exists_isLineAt {text : String} {behind rest : List Char} {c : Char}
    (h : text.toList = behind ++ c :: rest) (hc : isBlank c = false) :
    ∃ l : Line, l.IsLineAt text behind c ∧ l.number = behind.count '\n' + 1 := by
  have hfeed : c ≠ '\n' := by
    rintro rfl
    exact absurd hc (by decide)
  obtain ⟨before, front, rfl, hfront, hbefore, hlength⟩ := exists_flatMap_append behind
  -- the line goes on to the next line feed, or to the end
  obtain ⟨back, after, hback⟩ : ∃ back after,
      lines (front ++ c :: rest) = (front ++ c :: back) :: after := by
    by_cases hrest : '\n' ∈ rest
    · obtain ⟨back, rest, rfl, hback⟩ := List.eq_append_cons_of_mem hrest
      refine ⟨back, lines rest, ?_⟩
      rw [← List.cons_append, ← List.append_assoc]
      exact lines_append (by simp [hfront, hfeed.symm, hback]) rest
    · exact ⟨rest, [], lines_of_notMem (by simp [hfront, hfeed.symm, hrest]) (by simp)⟩
  have hlines : lines text.toList = before ++ (front ++ c :: back) :: after := by
    rw [h, List.append_assoc, lines_flatMap_append hbefore, hback]
  refine ⟨ofChars (before.length + 1) (front ++ c :: back),
    ⟨before, front, back, after, hlines, rfl, ?_, ?_⟩, congrArg (· + 1) hlength⟩
  · rw [ofText, numbered, hlines, List.getElem?_append_left (by simp), List.getElem?_mapIdx]
    simp
  · rw [ofChars, String.toList_ofList, trimChars, trimStart_append_cons hc, trimEnd_append_cons hc]

end Line

/-- **Octets are read strictly exactly when they are UTF-8**, and then the text is what they spell,
without one byte order mark.  If they are not, they are refused for the line in which the longest
text that they begin with ends; that is the line of the lenient reading in which U+FFFD stands for
the ill-formed part behind it. -/
theorem Utf8.decode_eq_ok_or_faulty (octets : List UInt8) :
    (∀ text, decode octets = .ok text ↔ ∃ u, octets = encode u ∧
      (u = String.singleton byteOrderMark ++ text ∨
        text = u ∧ u.toList.head? ≠ some byteOrderMark)) ∧
    ((∀ u, octets ≠ encode u) → ∃ s bad rest, StopsAt octets s bad rest ∧
      (∀ t, encode t <+: octets → (encode t).length ≤ (encode s).length) ∧
      decode octets = .error ((encode s).count 0x0A + 1) ∧
      (∀ o, Script.ofOctets o octets = .error ⟨(encode s).count 0x0A + 1, .notUtf8⟩) ∧
      (decodeLossy octets).toList = s.toList ++ replacement :: (decodeLossy rest).toList ∧
      ∃ l : Line, l.IsLineAt (decodeLossy octets) s.toList replacement ∧
        l.number = (encode s).count 0x0A + 1) := by
  refine ⟨fun text => ?_, fun hno => ?_⟩
  · rw [decode_eq_ok_iff]
    exact exists_congr fun u => and_congr_right fun _ => eq_withoutMark_iff
  · obtain ⟨s, bad, rest, hstops, hdecode, hlossy⟩ := exists_stopsAt_readings hno
    obtain ⟨l, hl, hnumber⟩ := Line.exists_isLineAt hlossy (by decide)
    refine ⟨s, bad, rest, hstops, fun t ht => hstops.longest ht, hdecode, fun o => ?_, hlossy,
      l, hl, ?_⟩
    · rw [Script.ofOctets, hdecode]
    · rw [hnumber, count_encode]

/-- A character that breaks off in front of a line feed, behind a U+FFFD that the file does hold. -/
theorem Utf8.decode_faulty_truncated :
    let octets := [0x61, 0x0A, 0xEF, 0xBF, 0xBD, 0x20, 0xE2, 0x82, 0x0A, 0xFF]
    (∀ u, octets ≠ encode u) ∧ decode octets = .error 2 ∧
      ∃ s l, encode s <+: octets ∧ 6 ≤ (encode s).length ∧
        Line.IsLineAt l (decodeLossy octets) s.toList replacement ∧ l.number = 2 := by
  intro octets
  have hno : ∀ u, octets ≠ encode u := by
    intro u hu
    have hnone : text? octets = none := rfl
    rw [text?_eq_some_iff.mpr hu] at hnone
    exact Option.some_ne_none u hnone
  obtain ⟨s, bad, rest, hstops, hlongest, hdecode, -, -, l, hl, hnumber⟩ :=
    (decode_eq_ok_or_faulty octets).2 hno
  have hline : decode octets = .error 2 := by decide +kernel
  have hbegins : encode "a\n\uFFFD " <+: octets := by decide
  refine ⟨hno, hline, s, l, hstops.eq ▸ List.prefix_append _ _, hlongest _ hbegins, hl, ?_⟩
  rw [hnumber]
  exact Except.error.inj (hdecode.symm.trans hline)

end ScriptSuite
