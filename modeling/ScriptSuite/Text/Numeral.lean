/-!
# Text/Numeral — decimal numerals within sixty-four bits

A numeral is an optional sign and at least one ASCII digit; leading zeros are allowed.  `int64?`
reads the signed ones, `nat64?` those without a minus sign, and both refuse a value that does not
fit into sixty-four bits.

A value of any size is `digits?`.  Reading within a bound (`digitsWithin?`) comes to the same and
gives up at the first digit that leads past the bound, so a numeral takes time in proportion to
its length.
-/

namespace ScriptSuite

/-- The value of a digit. -/
def digitValue (c : Char) : Nat := c.toNat - '0'.toNat

/-- The value of a run of ASCII digits; a run has at least one. -/
def digits? (cs : List Char) : Option Nat :=
  if cs.isEmpty || !cs.all Char.isDigit then none
  else some (cs.foldl (fun n c => 10 * n + digitValue c) 0)

/-- Reads digits behind the value `n`, while the value stays within `bound`. -/
def digitsFrom? (bound n : Nat) : List Char → Option Nat
  | [] => some n
  | c :: cs =>
    let n' := 10 * n + digitValue c
    if c.isDigit && n' ≤ bound then digitsFrom? bound n' cs else none

/-- The value of a run of digits, when it is at most `bound`. -/
def digitsWithin? (bound : Nat) (cs : List Char) : Option Nat :=
  if cs.isEmpty then none else digitsFrom? bound 0 cs

/-- A whole number, when it fits into a signed word of sixty-four bits. -/
def wordOfInt? (n : Int) : Option Int64 :=
  if -0x8000000000000000 ≤ n ∧ n < 0x8000000000000000 then some (Int64.ofInt n) else none

/-- The value of a run of digits behind a sign, within signed sixty-four bits. -/
def wordOfDigits? (negative : Bool) (ds : List Char) : Option Int64 :=
  if negative then (digitsWithin? 0x8000000000000000 ds).map fun n : Nat => Int64.ofInt (-n)
  else (digitsWithin? 0x7FFFFFFFFFFFFFFF ds).map fun n : Nat => Int64.ofInt n

/-- The value of a numeral with an optional sign, within signed sixty-four bits. -/
def int64? (s : String) : Option Int64 :=
  match s.toList with
  | '-' :: ds => wordOfDigits? true ds
  | '+' :: ds => wordOfDigits? false ds
  | ds => wordOfDigits? false ds

/-- The value of a numeral with an optional plus sign, within unsigned sixty-four bits. -/
def nat64? (s : String) : Option Nat :=
  match s.toList with
  | '+' :: ds => digitsWithin? 0xFFFFFFFFFFFFFFFF ds
  | ds => digitsWithin? 0xFFFFFFFFFFFFFFFF ds

/-! ## Giving up early loses nothing -/

/-- More digits do not make a value smaller. -/
theorem le_foldl_digits (n : Nat) (cs : List Char) :
    n ≤ cs.foldl (fun n c => 10 * n + digitValue c) n := by
  induction cs generalizing n with
  | nil => exact Nat.le_refl n
  | cons c cs ih =>
    refine Nat.le_trans ?_ (ih (10 * n + digitValue c))
    omega

/-- Reading on within a bound gives the value of all the digits, if that is within the bound. -/
theorem digitsFrom?_eq (bound n : Nat) (cs : List Char) (hn : n ≤ bound) :
    digitsFrom? bound n cs =
      if cs.all Char.isDigit ∧ cs.foldl (fun n c => 10 * n + digitValue c) n ≤ bound then
        some (cs.foldl (fun n c => 10 * n + digitValue c) n)
      else none := by
  induction cs generalizing n with
  | nil => simp [digitsFrom?, hn]
  | cons c cs ih =>
    have hle := le_foldl_digits (10 * n + digitValue c) cs
    simp only [digitsFrom?, List.all_cons, List.foldl_cons, Bool.and_eq_true, decide_eq_true_eq]
    by_cases hc : c.isDigit = true
    · by_cases hb : 10 * n + digitValue c ≤ bound
      · simp [hc, hb, ih _ hb]
      · rw [if_neg (by simp [hb]), if_neg (by omega)]
    · simp [hc]

/-- **Reading within a bound** is reading, and then comparing with the bound. -/
theorem digitsWithin?_eq (bound : Nat) (cs : List Char) :
    digitsWithin? bound cs = (digits? cs).filter (· ≤ bound) := by
  unfold digitsWithin? digits?
  by_cases he : cs.isEmpty = true
  · simp [he]
  · rw [digitsFrom?_eq bound 0 cs (Nat.zero_le bound)]
    by_cases hd : cs.all Char.isDigit = true
    · simp [he, hd, Option.filter]
    · simp [he, hd]

/-- **A signed word** is a value with its sign that fits into sixty-four bits. -/
theorem wordOfDigits?_eq (negative : Bool) (ds : List Char) :
    wordOfDigits? negative ds =
      (digits? ds).bind fun n => wordOfInt? (if negative then -n else n) := by
  unfold wordOfDigits? wordOfInt?
  cases hd : digits? ds with
  | none => simp [digitsWithin?_eq, hd]
  | some n =>
    cases negative with
    | false =>
      rw [if_neg Bool.false_ne_true, digitsWithin?_eq, hd, Option.filter_some, Option.bind_some,
        if_neg Bool.false_ne_true]
      by_cases h : n ≤ 0x7FFFFFFFFFFFFFFF
      · rw [if_pos (decide_eq_true h), if_pos (by omega), Option.map_some]
      · rw [if_neg (by rw [decide_eq_true_iff]; exact h), if_neg (by omega), Option.map_none]
    | true =>
      rw [if_pos rfl, digitsWithin?_eq, hd, Option.filter_some, Option.bind_some, if_pos rfl]
      by_cases h : n ≤ 0x8000000000000000
      · rw [if_pos (decide_eq_true h), if_pos (by omega), Option.map_some]
      · rw [if_neg (by rw [decide_eq_true_iff]; exact h), if_neg (by omega), Option.map_none]

/-- A number other than zero is not the word zero. -/
theorem wordOfInt?_filter_ne_zero {n : Int} (h : n ≠ 0) :
    (wordOfInt? n).filter (· ≠ 0) = wordOfInt? n := by
  unfold wordOfInt?
  split
  · rename_i hn
    rw [Option.filter_some, if_pos]
    rw [decide_eq_true_iff]
    intro h0
    have h0 := congrArg Int64.toInt h0
    rw [Int64.toInt_ofInt_of_le hn.1 hn.2, Int64.toInt_zero] at h0
    exact h h0
  · rfl

/-- The digits of a number, put behind as many zeros as a field of `width` needs. -/
def padded (width n : Nat) : String :=
  let ds := toString n
  String.ofList (List.replicate (width - ds.length) '0') ++ ds

end ScriptSuite
