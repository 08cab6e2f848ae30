import ScriptSuite.Proofs.Script.Acceptance
import ScriptSuite.Proofs.Text.Octets
import ScriptSuite.Script.Source

/-!
# Proofs/Script/Declared — the id that a file declares is its script's own

A file is read twice: strictly for its script, and leniently for the id that it declares, which is
asked for when it holds no script.  Where the strict reading gets as far as a text, both see the
same lines, and the declared id is that of the first identity line that says one.

They differ in one thing.  The strict reading drops a byte order mark, and the lenient one leaves it
in front of the first line, whose marker it hides (`declaredId?_eq_declaredIn`).
-/

namespace ScriptSuite

variable {octets : List UInt8} {text : String}

/-! ## Byte order marks -/

namespace Utf8

/-- A file that begins with the octets of a byte order mark. -/
def Marked (octets : List UInt8) : Prop := [0xEF, 0xBB, 0xBF] <+: octets

instance (octets : List UInt8) : Decidable (Marked octets) :=
  inferInstanceAs (Decidable (_ <+: _))

/-- **The octets of a text begin with those of a byte order mark** when it does. -/
theorem marked_encode_iff (s : String) :
    Marked (encode s) ↔ s.toList.head? = some byteOrderMark := by
  have hmark : [0xEF, 0xBB, 0xBF] = String.utf8EncodeChar byteOrderMark := by decide
  rw [Marked, hmark]
  constructor
  · rintro ⟨rest, hrest⟩
    have hfault : (Reading.ofOctets (encode s)).fault = none := by rw [ofOctets_encode]
    rw [Reading.ofOctets, ← hrest, List.foldl_append,
      (spells_encodeChar _).foldl_step rfl] at hfault
    obtain ⟨cs, rfl⟩ := exists_encode rfl hfault
    have hsame : encode s = encode (String.ofList (byteOrderMark :: cs)) := by
      rw [← hrest, encode, String.toList_ofList, List.flatMap_cons]
    rw [encode_inj hsame, String.toList_ofList, List.head?_cons]
  · intro h
    obtain ⟨cs, hcs⟩ := List.head?_eq_some_iff.mp h
    rw [encode, hcs, List.flatMap_cons]
    exact List.prefix_append _ _

/-- **What is read** is the text, behind the byte order mark if there is one. -/
theorem chars_eq_of_decode (h : decode octets = .ok text) : (Reading.ofOctets octets).chars =
    if Marked octets then byteOrderMark :: text.toList else text.toList := by
  obtain ⟨s, rfl, rfl⟩ := decode_eq_ok_iff.mp h
  simp only [marked_encode_iff, ofOctets_encode, Reading.chars, List.reverse_reverse,
    String.toList_ofList]
  cases s.toList with
  | nil => simp [withoutMark]
  | cons c cs => by_cases hc : c = byteOrderMark <;> simp [withoutMark, hc]

end Utf8

namespace Line

/-- A byte order mark stands in the first line, which may be empty but for it. -/
theorem lines_byteOrderMark (cs : List Char) : lines (Utf8.byteOrderMark :: cs) =
    (Utf8.byteOrderMark :: (lines cs).headD []) :: (lines cs).tail := by
  rw [lines_cons, cutStep, if_neg (by decide)]
  cases lines cs <;> rfl

/-- **A line with a byte order mark in front** is content, whatever its marker was. -/
theorem kind_byteOrderMark (cs : List Char) :
    Kind.ofChars (trimChars (Utf8.byteOrderMark :: cs)) = .content := by
  have hstart : trimStart (Utf8.byteOrderMark :: cs) = Utf8.byteOrderMark :: cs :=
    trimStart_eq_self_iff.mpr (by simp; decide)
  have hne : trimEnd (Utf8.byteOrderMark :: cs) ≠ [] := by
    rw [trimEnd, Ne, List.reverse_eq_nil_iff, List.dropWhile_eq_nil_iff]
    intro hblank
    exact absurd (hblank Utf8.byteOrderMark (by simp)) (by decide)
  have hhead := head?_trimEnd hne
  rw [List.head?_cons, List.head?_eq_some_iff] at hhead
  obtain ⟨rest, hrest⟩ := hhead
  rw [trimChars, hstart, hrest]
  rfl

/-! ## Declared ids -/

/-- The id of the first identity line that says one. -/
def declaredIn (ls : List Line) : Option String := (ls.filterMap identity?).find? (· ≠ "")

/-- Looking at the kinds of lines one by one finds it. -/
theorem findSome?_declaredId? (ls : List Line) :
    (ls.map (·.kind)).findSome? Kind.declaredId? = declaredIn ls := by
  induction ls with
  | nil => rfl
  | cons l ls ih =>
    rw [List.map_cons, List.findSome?_cons, ih, declaredIn, declaredIn, List.filterMap_cons,
      identity?]
    cases hkind : l.kind with
    | identity id => by_cases hid : id = "" <;> simp [Kind.declaredId?, hid]
    | _ => simp [Kind.declaredId?]

theorem map_kind_written (text : String) : (written text).map (·.kind) =
    (lines text.toList).map fun cs => Kind.ofChars (trimChars cs) := by
  refine List.ext_getElem (by simp [written]) fun i _ _ => ?_
  simp [written, ofChars]

end Line

/-- **The declared id** is that of the text's lines, of which a byte order mark hides the first. -/
theorem declaredId?_eq_declaredIn (h : Utf8.decode octets = .ok text) : declaredId? octets =
    Line.declaredIn
      (if Utf8.Marked octets then (Line.written text).tail else Line.written text) := by
  have hkinds : declaredId? octets =
      ((lines (Utf8.Reading.ofOctets octets).chars).map fun cs =>
        Line.Kind.ofChars (trimChars cs)).findSome? Line.Kind.declaredId? := by
    rw [List.findSome?_map]
    rfl
  rw [hkinds, Utf8.chars_eq_of_decode h, ← Line.findSome?_declaredId?]
  by_cases hmarked : Utf8.Marked octets
  · rw [if_pos hmarked, if_pos hmarked, List.map_tail, Line.map_kind_written,
      Line.lines_byteOrderMark, List.map_cons, Line.kind_byteOrderMark, List.map_tail]
    rfl
  · rw [if_neg hmarked, if_neg hmarked, Line.map_kind_written]

/-- A script's text declares the id of the script; so do all of its lines but the first, unless the
first is the identity line. -/
theorem declaredIn_tail {id : String} {ls : List Line} (h : ls.filterMap Line.identity? = [id])
    (hid : id ≠ "") : Line.declaredIn ls = some id ∧ Line.declaredIn ls.tail =
      if (ls.head?.bind Line.identity?).isSome then none else some id := by
  have hfind : [id].find? (· ≠ "") = some id := List.find?_cons_of_pos (by simpa using hid)
  refine ⟨by rw [Line.declaredIn, h, hfind], ?_⟩
  cases ls with
  | nil => simp at h
  | cons l ls =>
    rw [Line.declaredIn, List.tail_cons, List.head?_cons, Option.bind_some]
    cases hl : l.identity? with
    | some id' =>
      rw [List.filterMap_cons_some hl] at h
      rw [(List.cons.inj h).2, List.find?_nil]
      rfl
    | none =>
      rw [List.filterMap_cons_none hl] at h
      rw [h, hfind]
      rfl

/-- **The id that a file declares** is that of its script, or of the first identity line that says
one where a text is no script; but a byte order mark hides the first line. -/
theorem declaredId?_ofOctets (o : Script.Options) (octets : List UInt8) :
    (∀ s, Script.ofOctets o octets = .ok s → ∃ text, Utf8.decode octets = .ok text ∧
      declaredId? octets =
        if Utf8.Marked octets ∧ ((Line.written text).head?.bind Line.identity?).isSome then none
        else some s.id) ∧
    ∀ d, Script.ofOctets o octets = .error d → d.reason ≠ .notUtf8 →
      ∃ text, Utf8.decode octets = .ok text ∧ declaredId? octets = Line.declaredIn
        (if Utf8.Marked octets then (Line.written text).tail else Line.written text) := by
  constructor
  · intro s hs
    cases htext : Utf8.decode octets with
    | error line => simp [Script.ofOctets, htext] at hs
    | ok text =>
      rw [Script.ofOctets, htext] at hs
      obtain ⟨hgrammar, hdescribes⟩ := grammatical_and_describes_of_read hs
      obtain ⟨id, hid, hne⟩ := hgrammar.identity
      obtain rfl : id = s.id := by simpa [hid] using hdescribes.id
      obtain ⟨hwhole, htail⟩ := declaredIn_tail hid hne
      refine ⟨text, rfl, ?_⟩
      rw [declaredId?_eq_declaredIn htext]
      by_cases hmarked : Utf8.Marked octets <;> simp [hmarked, hwhole, htail]
  · intro d hd hreason
    cases htext : Utf8.decode octets with
    | error line =>
      rw [Script.ofOctets, htext] at hd
      exact absurd (Except.error.inj hd ▸ rfl) hreason
    | ok text => exact ⟨text, rfl, declaredId?_eq_declaredIn htext⟩

/-- Behind a byte order mark, neither a script nor an unfinished one declares its id. -/
theorem declaredId?_ofOctets_marked :
    let marked : List UInt8 := [0xEF, 0xBB, 0xBF, 0x23, 0x21, 0x20, 0x78]
    let unfinished : List UInt8 := marked ++ [0x0A, 0x41]
    (Script.ofOctets {} marked = .ok { id := "x" } ∧ declaredId? marked = none) ∧
      Script.ofOctets {} unfinished = .error ⟨2, .stepUnfinished⟩ ∧ declaredId? unfinished = none ∧
        Line.declaredIn (Line.written "#! x\nA") = some "x" := by
  intro marked unfinished
  have hread : Script.ofOctets {} marked = .ok { id := "x" } := by decide
  have hdefect : Script.ofOctets {} unfinished = .error ⟨2, .stepUnfinished⟩ := by decide
  have htext : Utf8.decode marked = .ok "#! x" := by decide
  have htext' : Utf8.decode unfinished = .ok "#! x\nA" := by decide
  refine ⟨⟨hread, ?_⟩, hdefect, ?_, by decide⟩
  · obtain ⟨text, hdecode, hid⟩ := (declaredId?_ofOctets {} marked).1 _ hread
    obtain rfl : "#! x" = text := Except.ok.inj (htext.symm.trans hdecode)
    rwa [if_pos (by decide)] at hid
  · obtain ⟨text, hdecode, hid⟩ := (declaredId?_ofOctets {} unfinished).2 _ hdefect (by decide)
    obtain rfl : "#! x\nA" = text := Except.ok.inj (htext'.symm.trans hdecode)
    rw [hid]
    decide

end ScriptSuite
