import ScriptSuite.Proofs.Text.Trimming
import ScriptSuite.Text.Numeral

/-!
# Proofs/Text/Numerals — what a numeral stands for

A numeral is an optional sign and at least one digit, and stands for a whole number of any size
(`Numeral`).  Reading gives that number exactly when it fits into a word (`int64?_eq_some_iff`), and
the way a number is written is a numeral of it (`numeral_toString`).
-/

namespace ScriptSuite

/-- **A run of digits**, at least one, and its value. -/
structure Digits (ds : List Char) (n : Nat) : Prop where
  ne_nil : ds ≠ []
  isDigit : ∀ c ∈ ds, c.isDigit = true
  value : Nat.ofDigitChars 10 ds 0 = n

/-- **A numeral**: digits behind an optional sign, and their value with that sign. -/
inductive Numeral : String → Int → Prop
  | unsigned {s : String} {n : Nat} (h : Digits s.toList n) : Numeral s n
  | positive {s : String} {ds : List Char} {n : Nat} (hs : s.toList = '+' :: ds)
      (h : Digits ds n) : Numeral s n
  | negative {s : String} {ds : List Char} {n : Nat} (hs : s.toList = '-' :: ds)
      (h : Digits ds n) : Numeral s (-n)

/-! ## Reading -/

theorem digits?_eq_some_iff {ds : List Char} {n : Nat} : digits? ds = some n ↔ Digits ds n := by
  have hfold : ds.foldl (fun n c => 10 * n + digitValue c) 0 = Nat.ofDigitChars 10 ds 0 := by
    rw [Nat.ofDigitChars_eq_foldl]
    rfl
  rw [digits?, hfold]
  constructor
  · intro h
    by_cases hcs : ds.isEmpty || !ds.all Char.isDigit
    · rw [if_pos hcs] at h
      exact absurd h (by simp)
    · rw [if_neg hcs] at h
      simp only [Bool.or_eq_true, List.isEmpty_iff, Bool.not_eq_true', not_or,
        Bool.not_eq_false, List.all_eq_true] at hcs
      exact ⟨hcs.1, hcs.2, Option.some.inj h⟩
  · rintro ⟨hnil, hall, hvalue⟩
    rw [if_neg, hvalue]
    simpa [hnil] using hall

theorem wordOfInt?_eq_some_iff {z : Int} {n : Int64} : wordOfInt? z = some n ↔ z = n.toInt := by
  rw [wordOfInt?]
  constructor
  · intro h
    split at h
    · rename_i hz
      rw [← Option.some.inj h, Int64.toInt_ofInt_of_le hz.1 hz.2]
    · exact absurd h (by simp)
  · rintro rfl
    rw [if_pos ⟨n.le_toInt, n.toInt_lt⟩, Int64.ofInt_toInt]

theorem wordOfDigits?_eq_some_iff {negative : Bool} {ds : List Char} {n : Int64} :
    wordOfDigits? negative ds = some n ↔
      ∃ m, Digits ds m ∧ (if negative then -(m : Int) else m) = n.toInt := by
  simp only [wordOfDigits?_eq, Option.bind_eq_some_iff, digits?_eq_some_iff, wordOfInt?_eq_some_iff]

/-- No sign is a digit. -/
theorem Digits.head_ne {c : Char} {ds : List Char} {n : Nat} (h : Digits (c :: ds) n) :
    c ≠ '-' ∧ c ≠ '+' := by
  have hc := h.isDigit c (List.mem_cons_self ..)
  constructor
  · rintro rfl
    exact absurd hc (by decide)
  · rintro rfl
    exact absurd hc (by decide)

/-- **A word is read** exactly when the text is a numeral for it. -/
theorem int64?_eq_some_iff {s : String} {n : Int64} : int64? s = some n ↔ Numeral s n.toInt := by
  constructor
  · intro h
    rw [int64?] at h
    split at h
    next ds hs =>
      obtain ⟨m, hm, hn⟩ := wordOfDigits?_eq_some_iff.mp h
      rw [← hn]
      exact .negative hs hm
    next ds hs =>
      obtain ⟨m, hm, hn⟩ := wordOfDigits?_eq_some_iff.mp h
      rw [← hn]
      exact .positive hs hm
    next =>
      obtain ⟨m, hm, hn⟩ := wordOfDigits?_eq_some_iff.mp h
      rw [← hn]
      exact .unsigned hm
  · intro h
    rw [int64?]
    generalize hz : n.toInt = z at h
    cases h with
    | unsigned h =>
      split
      next ds hs => exact absurd rfl (hs ▸ h).head_ne.1
      next ds hs => exact absurd rfl (hs ▸ h).head_ne.2
      next => exact wordOfDigits?_eq_some_iff.mpr ⟨_, h, hz.symm⟩
    | positive hs h =>
      rw [hs]
      exact wordOfDigits?_eq_some_iff.mpr ⟨_, h, hz.symm⟩
    | negative hs h =>
      rw [hs]
      exact wordOfDigits?_eq_some_iff.mpr ⟨_, h, hz.symm⟩

/-! ## The characters of a numeral -/

theorem Numeral.ne_empty {s : String} {z : Int} (h : Numeral s z) : s ≠ "" := by
  rintro rfl
  cases h with
  | unsigned h => exact h.ne_nil rfl
  | positive hs => exact absurd hs (by simp)
  | negative hs => exact absurd hs (by simp)

theorem Digits.isBlank {ds : List Char} {n : Nat} (h : Digits ds n) :
    ∀ c ∈ ds, isBlank c = false := fun c hc => isBlank_of_isDigit (h.isDigit c hc)

/-- A numeral has no blanks. -/
theorem Numeral.oneLine {s : String} {z : Int} (h : Numeral s z) : OneLine s := by
  refine oneLine_of_isBlank_eq_false fun c hc => ?_
  cases h with
  | unsigned h => exact h.isBlank c hc
  | positive hs h =>
    rw [hs] at hc
    rcases List.mem_cons.mp hc with rfl | hc
    · decide
    · exact h.isBlank c hc
  | negative hs h =>
    rw [hs] at hc
    rcases List.mem_cons.mp hc with rfl | hc
    · decide
    · exact h.isBlank c hc

/-! ## Writing -/

/-- The digits of a number, as they are written. -/
theorem digits_repr (n : Nat) : Digits n.repr.toList n := by
  rw [Nat.toList_repr]
  exact ⟨Nat.toDigits_ne_nil, fun c hc => Nat.isDigit_of_mem_toDigits (by decide) (by decide) hc,
    Nat.ofDigitChars_ten_toDigits⟩

theorem numeral_toString (z : Int) : Numeral (toString z) z := by
  rw [Int.toString_eq_repr, Int.repr_eq_if]
  by_cases hz : 0 ≤ z
  · rw [if_pos hz]
    have h := Numeral.unsigned (digits_repr z.toNat)
    rwa [Int.toNat_of_nonneg hz] at h
  · rw [if_neg hz]
    have hs : ("-" ++ (-z).toNat.repr).toList = '-' :: (-z).toNat.repr.toList := by simp
    have h := Numeral.negative hs (digits_repr (-z).toNat)
    rwa [Int.toNat_of_nonneg (by omega), Int.neg_neg] at h

end ScriptSuite
