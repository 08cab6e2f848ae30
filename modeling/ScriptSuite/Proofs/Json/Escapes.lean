import ScriptSuite.Proofs.Json.Grammar

/-!
# Proofs/Json/Escapes — a text comes back from its spellings

A text can be spelled in many ways as the body of a string literal (`Spells`).  Each of them is a
body, and a body denotes the text that it spells (`unescape_eq_some_iff`); what is written for a
text is one of its spellings (`spells_escape`).
-/

namespace ScriptSuite.Json

/-- **A spelling** of a text: each character as it is, by a one-letter escape, or by its code in
hexadecimal, as a surrogate pair if it takes two. -/
inductive Spells : List Char → List Char → Prop
  | nil : Spells [] []
  | plain {c : Char} {cs body : List Char} (hquote : c ≠ '"') (hslash : c ≠ '\\')
      (hcontrol : 0x20 ≤ c.toNat) (h : Spells cs body) : Spells (c :: cs) (c :: body)
  | short {x c : Char} {cs body : List Char} (hx : shortEscape? x = some c) (h : Spells cs body) :
      Spells (c :: cs) ('\\' :: x :: body)
  | unit {a b c d : Char} {u : Nat} {cs body : List Char} (hunit : hexUnit? a b c d = some u)
      (hhigh : isHighSurrogate u = false) (hlow : isLowSurrogate u = false)
      (h : Spells cs body) : Spells (Char.ofNat u :: cs) ('\\' :: 'u' :: a :: b :: c :: d :: body)
  | pair {a b c d e f g h : Char} {u v : Nat} {cs body : List Char}
      (hunit : hexUnit? a b c d = some u) (hhigh : isHighSurrogate u = true)
      (hunit' : hexUnit? e f g h = some v) (hlow : isLowSurrogate v = true)
      (hrest : Spells cs body) : Spells (pairChar u v :: cs)
        ('\\' :: 'u' :: a :: b :: c :: d :: '\\' :: 'u' :: e :: f :: g :: h :: body)

section Reading

variable {cs read rest : List Char}

/-- A spelling is the body of a string. -/
theorem Spells.isBody {body : List Char} (h : Spells cs body) : Body body := by
  induction h with
  | nil => exact .nil
  | plain hquote hslash hcontrol _ ih => exact .plain hquote hslash hcontrol ih
  | short hx _ ih => exact .short hx ih
  | unit hunit _ _ _ ih => exact .unit hunit ih
  | pair hunit _ hunit' _ _ ih => exact .unit hunit (.unit hunit' ih)

/-! ## Reading a spelling -/

theorem unescapeFrom_plain {c : Char} (hc : c ≠ '\\') :
    unescapeFrom read (c :: rest) = unescapeFrom (c :: read) rest := by
  rw [unescapeFrom.eq_5] <;> intros <;> contradiction

theorem unescapeFrom_short {x c : Char} (hx : shortEscape? x = some c) :
    unescapeFrom read ('\\' :: x :: rest) = unescapeFrom (c :: read) rest := by
  have hletter : x ≠ 'u' := by
    rintro rfl
    have hnone : shortEscape? 'u' = none := rfl
    rw [hnone] at hx
    cases hx
  rw [unescapeFrom.eq_3, hx] <;> intros <;> contradiction

/-- One unit that is no half of a pair, whatever follows. -/
theorem unescapeFrom_unit {a b c d : Char} {u : Nat} (hunit : hexUnit? a b c d = some u)
    (hhigh : isHighSurrogate u = false) (hlow : isLowSurrogate u = false) :
    unescapeFrom read ('\\' :: 'u' :: a :: b :: c :: d :: rest) =
      unescapeFrom (Char.ofNat u :: read) rest := by
  by_cases hrest : ∃ e f g h rest', rest = '\\' :: 'u' :: e :: f :: g :: h :: rest'
  · obtain ⟨e, f, g, h, rest', rfl⟩ := hrest
    rw [unescapeFrom.eq_1]
    simp only [hunit, hhigh, hlow, Bool.false_eq_true, if_false]
  · rw [unescapeFrom.eq_2 _ _ _ _ _ _ fun e f g h rest' hrest' =>
      hrest ⟨e, f, g, h, rest', hrest'⟩]
    simp only [hunit, hhigh, hlow, Bool.or_false, Bool.false_eq_true, if_false]

theorem unescapeFrom_pair {a b c d e f g h : Char} {u v : Nat} (hunit : hexUnit? a b c d = some u)
    (hhigh : isHighSurrogate u = true) (hunit' : hexUnit? e f g h = some v)
    (hlow : isLowSurrogate v = true) : unescapeFrom read
      ('\\' :: 'u' :: a :: b :: c :: d :: '\\' :: 'u' :: e :: f :: g :: h :: rest) =
        unescapeFrom (pairChar u v :: read) rest := by
  rw [unescapeFrom.eq_1]
  simp only [hunit, hhigh, hunit', hlow, if_true]

theorem Spells.unescapeFrom_eq {body : List Char} (h : Spells cs body) (read : List Char) :
    unescapeFrom read body = some (read.reverse ++ cs) := by
  induction h generalizing read with
  | nil => rw [unescapeFrom, List.append_nil]
  | plain _ hslash _ _ ih => rw [unescapeFrom_plain hslash, ih]; simp
  | short hx _ ih => rw [unescapeFrom_short hx, ih]; simp
  | unit hunit hhigh hlow _ ih => rw [unescapeFrom_unit hunit hhigh hlow, ih]; simp
  | pair hunit hhigh hunit' hlow _ ih =>
    rw [unescapeFrom_pair hunit hhigh hunit' hlow, ih]
    simp

/-- **A spelling denotes its text.** -/
theorem Spells.unescape_eq {body : List Char} (h : Spells cs body) : unescape body = some cs :=
  h.unescapeFrom_eq []

/-! ## What denotes a text spells it -/

/-- A body goes on behind an escape in hexadecimal. -/
theorem Body.of_unit {a b c d : Char} (h : Body ('\\' :: 'u' :: a :: b :: c :: d :: rest)) :
    Body rest := by
  cases h with
  | plain _ hslash _ _ => exact absurd rfl hslash
  | short hc _ => exact absurd hc (by simp [shortEscape?])
  | unit _ h => exact h

/-- What was read of a body, and then its first character, spells the body with the rest. -/
theorem exists_spells_cons {c : Char} {body : List Char}
    (h : ∃ tail, cs = (c :: read).reverse ++ tail ∧ Spells tail rest)
    (hspells : ∀ tail, Spells tail rest → Spells (c :: tail) body) :
    ∃ tail, cs = read.reverse ++ tail ∧ Spells tail body := by
  obtain ⟨tail, rfl, htail⟩ := h
  exact ⟨c :: tail, by simp, hspells tail htail⟩

theorem spells_of_unescapeFrom {body : List Char} (h : Body body)
    (hread : unescapeFrom read body = some cs) :
    ∃ tail, cs = read.reverse ++ tail ∧ Spells tail body := by
  fun_induction unescapeFrom read body with
  | case1 | case2 | case4 | case5 | case7 | case8 | case10 | case12 => cases hread
  | case3 _ _ _ _ _ _ _ _ _ _ _ hunit hhigh _ hunit' hlow ih =>
    exact exists_spells_cons (ih h.of_unit.of_unit hread)
      fun tail htail => .pair hunit hhigh hunit' hlow htail
  | case6 _ _ _ _ _ _ _ _ _ _ _ hunit hhigh hlow ih =>
    exact exists_spells_cons (ih h.of_unit hread) fun tail htail =>
      .unit hunit (Bool.not_eq_true _ ▸ hhigh) (Bool.not_eq_true _ ▸ hlow) htail
  | case9 _ _ _ _ _ _ _ _ hunit hhalf ih =>
    rw [Bool.not_eq_true, Bool.or_eq_false_iff] at hhalf
    exact exists_spells_cons (ih h.of_unit hread)
      fun tail htail => .unit hunit hhalf.1 hhalf.2 htail
  | case11 _ c rest _ hnot _ hshort ih =>
    refine exists_spells_cons (ih ?_ hread) fun tail htail => .short hshort htail
    cases h with
    | plain _ hslash _ _ => exact absurd rfl hslash
    | short _ h => exact h
    | unit _ _ => exact (hnot _ _ _ _ _ rfl rfl).elim
  | case13 _ c rest _ hunit hshort hslash ih =>
    cases h with
    | plain hquote hslash hcontrol h =>
      exact exists_spells_cons (ih h hread) fun tail htail =>
        .plain hquote hslash hcontrol htail
    | short _ _ => exact (hshort _ _ rfl rfl).elim
    | unit _ _ => exact (hunit _ _ _ _ _ rfl rfl).elim
  | case14 => exact ⟨[], by simpa using hread.symm, .nil⟩

/-- **A body denotes the text that it spells**, and no other. -/
theorem unescape_eq_some_iff {body : List Char} (h : Body body) :
    unescape body = some cs ↔ Spells cs body := by
  refine ⟨fun hread => ?_, Spells.unescape_eq⟩
  obtain ⟨tail, rfl, htail⟩ := spells_of_unescapeFrom h hread
  exact htail

end Reading

/-! ## Writing -/

theorem hexUnit?_control : ∀ n < 0x20,
    hexUnit? '0' '0' (hexDigit (n / 16)) (hexDigit (n % 16)) = some n := by
  decide

/-- What is written for a character spells it. -/
theorem Spells.cons {cs body : List Char} (h : Spells cs body) (c : Char) :
    Spells (c :: cs) (escapeChar c ++ body) := by
  rw [escapeChar]
  split_ifs with hquote hslash hb hf hn hr ht hcontrol
  · subst hquote
    exact .short rfl h
  · subst hslash
    exact .short rfl h
  · subst hb
    exact .short rfl h
  · subst hf
    exact .short rfl h
  · subst hn
    exact .short rfl h
  · subst hr
    exact .short rfl h
  · subst ht
    exact .short rfl h
  · have hunit := Spells.unit (hexUnit?_control c.toNat hcontrol)
      (by simp [isHighSurrogate]; omega) (by simp [isLowSurrogate]; omega) h
    rwa [Char.ofNat_toNat] at hunit
  · exact .plain hquote hslash (Nat.not_lt.mp hcontrol) h

/-- **What is written for a text** spells it. -/
theorem spells_escape (cs : List Char) : Spells cs (escape cs) := by
  induction cs with
  | nil => exact .nil
  | cons c cs ih =>
    rw [escape, List.flatMap_cons]
    exact ih.cons c

theorem unescape_escape (cs : List Char) : unescape (escape cs) = some cs :=
  (spells_escape cs).unescape_eq

@[simp] theorem text?_text (s : String) : (text s).text? = some s := by
  rw [text, text?, unescape_escape, Option.map_some, String.ofList_toList]

end ScriptSuite.Json
