/-!
# Text/CodeRanges — a class of characters as ranges of code points

A class is a list of closed ranges that ascend and stay apart, so that looking a code point up may
stop at the first range above it.
-/

namespace ScriptSuite

namespace CodeRanges

/-- No range is empty, and each one begins above the end of the one before. -/
def isAscending : List (Nat × Nat) → Bool
  | [] => true
  | [(low, high)] => low ≤ high
  | (low, high) :: (next, last) :: above =>
    low ≤ high && high < next && isAscending ((next, last) :: above)

/-- **Looking a code point up**: the ranges above it are not looked at. -/
def lookUp : List (Nat × Nat) → Nat → Bool
  | [], _ => false
  | (low, high) :: above, n => low ≤ n && (n ≤ high || lookUp above n)

end CodeRanges

/-- **A class of characters**: closed ranges of code points, from the lowest to the highest. -/
structure CodeRanges where
  ranges : List (Nat × Nat)
  ascending : CodeRanges.isAscending ranges = true

namespace CodeRanges

/-- Whether a code point is in a class. -/
def covers (cls : CodeRanges) (n : Nat) : Bool := lookUp cls.ranges n

theorem isAscending_of_cons {r : Nat × Nat} {above : List (Nat × Nat)}
    (h : isAscending (r :: above) = true) :
    r.1 ≤ r.2 ∧ isAscending above = true ∧ ∀ s ∈ above.head?, r.2 < s.1 := by
  cases above with
  | nil => simpa [isAscending] using h
  | cons s above => simpa [isAscending, and_assoc, and_comm] using h

/-- Ascending ranges lie above what is below the first of them. -/
theorem lt_of_lt_head {low high n : Nat} {above : List (Nat × Nat)}
    (h : isAscending ((low, high) :: above) = true) (hn : n < low) :
    ∀ r ∈ (low, high) :: above, n < r.1 := by
  induction above generalizing low high with
  | nil => simpa using hn
  | cons s above ih =>
    obtain ⟨hle, habove, hnext⟩ := isAscending_of_cons h
    have hlt : high < s.1 := hnext s rfl
    simp only at hle
    exact List.forall_mem_cons.mpr ⟨hn, ih habove (by omega)⟩

/-- **A class holds the code points of its ranges**: stopping early loses nothing, since the ranges
ascend. -/
theorem covers_iff (cls : CodeRanges) (n : Nat) :
    cls.covers n = true ↔ ∃ r ∈ cls.ranges, r.1 ≤ n ∧ n ≤ r.2 := by
  obtain ⟨ranges, h⟩ := cls
  rw [covers]
  induction ranges with
  | nil => simp [lookUp]
  | cons r above ih =>
    obtain ⟨low, high⟩ := r
    obtain ⟨-, habove, -⟩ := isAscending_of_cons h
    rw [lookUp, Bool.and_eq_true, Bool.or_eq_true, ih habove, decide_eq_true_eq, decide_eq_true_eq]
    by_cases hn : n < low
    · have hnone : ¬ ∃ r ∈ (low, high) :: above, r.1 ≤ n ∧ n ≤ r.2 := by
        rintro ⟨r, hr, hle, -⟩
        exact Nat.not_le.mpr (lt_of_lt_head h hn r hr) hle
      exact iff_of_false (fun hle => Nat.not_le.mpr hn hle.1) hnone
    · simp [Nat.not_lt.mp hn]

end CodeRanges

end ScriptSuite
