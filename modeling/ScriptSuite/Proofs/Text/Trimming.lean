import Mathlib.Data.List.DropRight
import ScriptSuite.Text.Blank

/-!
# Proofs/Text/Trimming — what trimming leaves, and what it leaves alone

A trimmed text is one that trimming leaves alone (`trimChars_eq_self_iff`), and what trimming leaves
is trimmed (`trimmed_trimChars`).  Blanks before a text are trimmed away with the text's own
(`trimChars_cons_of_blank`).  A text that is trimmed and has no line feed can stand on a line of its
own (`OneLine`).
-/

namespace ScriptSuite

/-- Characters that neither begin nor end with a blank. -/
def TrimmedChars (cs : List Char) : Prop :=
  (∀ c ∈ cs.head?, isBlank c = false) ∧ ∀ c ∈ cs.getLast?, isBlank c = false

theorem trimmed_ofList {cs : List Char} : Trimmed (String.ofList cs) ↔ TrimmedChars cs := by
  rw [Trimmed, String.toList_ofList, TrimmedChars]

theorem trimStart_eq_self_iff {cs : List Char} :
    trimStart cs = cs ↔ ∀ c ∈ cs.head?, isBlank c = false := by
  cases cs with
  | nil => simp [trimStart]
  | cons c cs =>
    rw [trimStart, List.dropWhile_cons, List.head?_cons]
    by_cases hc : isBlank c = true
    · have hlen : (cs.dropWhile isBlank).length ≤ cs.length := List.length_dropWhile_le _ _
      have hne : cs.dropWhile isBlank ≠ c :: cs := by
        intro h
        rw [h, List.length_cons] at hlen
        omega
      simp [hc, hne]
    · simp [hc]

theorem trimEnd_eq_self_iff {cs : List Char} :
    trimEnd cs = cs ↔ ∀ c ∈ cs.getLast?, isBlank c = false := by
  have h : trimStart cs.reverse = cs.reverse ↔ _ := trimStart_eq_self_iff
  rw [List.head?_reverse] at h
  rw [← h, trimEnd, trimStart, List.reverse_eq_iff]

/-- The last character is kept when only blanks before the text are taken off. -/
theorem getLast?_trimStart {cs : List Char} (h : trimStart cs ≠ []) :
    (trimStart cs).getLast? = cs.getLast? := by
  obtain ⟨blanks, hcs⟩ : trimStart cs <:+ cs := List.dropWhile_suffix isBlank
  conv_rhs => rw [← hcs]
  rw [List.getLast?_append_of_ne_nil _ h]

/-- The first character is kept when only blanks behind the text are taken off. -/
theorem head?_trimEnd {cs : List Char} (h : trimEnd cs ≠ []) :
    (trimEnd cs).head? = cs.head? := by
  have hrev : trimStart cs.reverse ≠ [] := fun h' => h (List.reverse_eq_nil_iff.mpr h')
  have hlast := getLast?_trimStart hrev
  rwa [← List.head?_reverse, List.getLast?_reverse] at hlast

/-- **What trimming leaves is trimmed.** -/
theorem trimmedChars_trimChars (cs : List Char) : TrimmedChars (trimChars cs) := by
  have hend : trimEnd (trimChars cs) = trimChars cs := List.rdropWhile_idempotent _ _
  refine ⟨fun c hc => ?_, trimEnd_eq_self_iff.mp hend⟩
  have hne : trimEnd (trimStart cs) ≠ [] := fun h => by simp [trimChars, h] at hc
  rw [trimChars, head?_trimEnd hne] at hc
  have hstart : trimStart (trimStart cs) = trimStart cs := List.dropWhile_idempotent _ _
  exact trimStart_eq_self_iff.mp hstart c hc

/-- **Trimming leaves a trimmed text alone**, and no other. -/
theorem trimChars_eq_self_iff {cs : List Char} : trimChars cs = cs ↔ TrimmedChars cs := by
  constructor
  · intro h
    rw [← h]
    exact trimmedChars_trimChars cs
  · rintro ⟨hhead, hlast⟩
    rw [trimChars, trimStart_eq_self_iff.mpr hhead, trimEnd_eq_self_iff.mpr hlast]

theorem trimChars_toList {s : String} (h : Trimmed s) : trimChars s.toList = s.toList :=
  trimChars_eq_self_iff.mpr h

theorem trimChars_cons_of_blank {c : Char} (hc : isBlank c = true) (cs : List Char) :
    trimChars (c :: cs) = trimChars cs := by
  rw [trimChars, trimStart, List.dropWhile_cons_of_pos hc, trimChars, trimStart]

/-- Trimming only takes characters away. -/
theorem mem_of_mem_trimChars {cs : List Char} {c : Char} (h : c ∈ trimChars cs) : c ∈ cs :=
  (List.dropWhile_sublist isBlank).subset ((List.rdropWhile_prefix isBlank _).sublist.subset h)

theorem trimChars_notMem {cs : List Char} {c : Char} (h : c ∉ cs) : c ∉ trimChars cs :=
  fun h' => h (mem_of_mem_trimChars h')

/-- **A character that is not blank** stops the trimming from either side. -/
theorem trimStart_append_cons {c : Char} (hc : isBlank c = false) (front back : List Char) :
    trimStart (front ++ c :: back) = trimStart front ++ c :: back := by
  have hstop : (c :: back).dropWhile isBlank = c :: back :=
    List.dropWhile_cons_of_neg (Bool.not_eq_true _ ▸ hc)
  rw [trimStart, List.dropWhile_append, hstop, trimStart]
  split
  next h => rw [List.isEmpty_iff.mp h, List.nil_append]
  next => rfl

theorem trimEnd_append_cons {c : Char} (hc : isBlank c = false) (front back : List Char) :
    trimEnd (front ++ c :: back) = front ++ c :: trimEnd back := by
  have hend : ∀ cs, trimEnd cs = (trimStart cs.reverse).reverse := fun _ => rfl
  rw [hend, hend, List.reverse_append, List.reverse_cons, List.append_assoc,
    List.singleton_append, trimStart_append_cons hc, List.reverse_append, List.reverse_cons,
    List.reverse_reverse, List.append_assoc, List.singleton_append]

/-! ## Texts on one line -/

/-- A text on one line, without blanks at its ends. -/
structure OneLine (s : String) : Prop where
  trimmed : Trimmed s
  noFeed : '\n' ∉ s.toList

instance (s : String) : Decidable (OneLine s) :=
  decidable_of_iff (Trimmed s ∧ '\n' ∉ s.toList) ⟨fun h => ⟨h.1, h.2⟩, fun h => ⟨h.1, h.2⟩⟩

theorem oneLine_empty : OneLine "" := by decide

theorem oneLine_trimChars {cs : List Char} (h : '\n' ∉ cs) :
    OneLine (String.ofList (trimChars cs)) := by
  refine ⟨trimmed_ofList.mpr (trimmedChars_trimChars cs), ?_⟩
  rw [String.toList_ofList]
  exact trimChars_notMem h

/-- A text without any blank. -/
theorem oneLine_of_isBlank_eq_false {s : String} (h : ∀ c ∈ s.toList, isBlank c = false) :
    OneLine s := by
  refine ⟨⟨fun c hc => h c (List.mem_of_mem_head? hc), fun c hc => h c (List.mem_of_getLast? hc)⟩,
    fun hfeed => ?_⟩
  exact absurd (h _ hfeed) (by decide)

theorem isBlank_of_isDigit {c : Char} (h : c.isDigit = true) : isBlank c = false := by
  rw [Char.isDigit, Bool.and_eq_true, decide_eq_true_eq, decide_eq_true_eq] at h
  have hlow : 48 ≤ c.toNat := UInt32.le_iff_toNat_le.mp h.1
  have hhigh : c.toNat ≤ 57 := UInt32.le_iff_toNat_le.mp h.2
  rw [isBlank, ← Bool.not_eq_true, CodeRanges.covers_iff]
  rintro ⟨r, hr, hle, hge⟩
  have hapart : ∀ r ∈ blankRanges.ranges, r.2 < 48 ∨ 57 < r.1 := by decide
  have := hapart r hr
  omega

end ScriptSuite
