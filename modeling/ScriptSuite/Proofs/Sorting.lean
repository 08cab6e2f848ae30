import Mathlib.Order.Lattice

/-!
# Proofs/Sorting — sorting by a key

Elements are sorted by keys that stand in a linear order, and keys may repeat.  Sorting is stable:
the elements with one key are still there, in the order that they had (`filter_mergeSort`).  When no
key repeats there is only one order to come to, whatever the order at first
(`mergeSort_eq_of_perm`).
-/

namespace ScriptSuite

variable {α κ : Type} [LinearOrder κ]

/-- **A test compares keys**: it holds when the key of the first element is not the greater one. -/
def ComparesBy (key : α → κ) (le : α → α → Bool) : Prop := ∀ a b, le a b = true ↔ key a ≤ key b

namespace ComparesBy

variable {key : α → κ} {le : α → α → Bool} {l l' : List α}

theorem trans (h : ComparesBy key le) (a b c : α) (hab : le a b = true) (hbc : le b c = true) :
    le a c = true :=
  (h a c).mpr (le_trans ((h a b).mp hab) ((h b c).mp hbc))

theorem total (h : ComparesBy key le) (a b : α) : (le a b || le b a) = true := by
  rw [Bool.or_eq_true, h, h]
  exact le_total _ _

theorem pairwise_mergeSort (h : ComparesBy key le) (l : List α) :
    (l.mergeSort le).Pairwise (key · ≤ key ·) :=
  (List.pairwise_mergeSort h.trans h.total l).imp fun hab => (h _ _).mp hab

/-- **Sorting is stable**: elements with one key stay in their order. -/
theorem filter_mergeSort (h : ComparesBy key le) {p : α → Bool}
    (hp : ∀ a b, p a = true → p b = true → key a = key b) (l : List α) :
    (l.mergeSort le).filter p = l.filter p := by
  have hsame : (l.filter p).Pairwise fun a b => le a b = true := by
    refine List.pairwise_of_forall_mem_list fun a ha b hb => (h a b).mpr ?_
    exact le_of_eq (hp a b (List.mem_filter.mp ha).2 (List.mem_filter.mp hb).2)
  have hsub : (l.filter p).Sublist (l.mergeSort le) :=
    List.sublist_mergeSort h.trans h.total hsame List.filter_sublist
  have hfilter := hsub.filter p
  rw [List.filter_filter] at hfilter
  simp only [Bool.and_self] at hfilter
  exact (hfilter.eq_of_length ((List.mergeSort_perm l _).symm.filter _).length_eq).symm

/-- **Elements whose keys are apart** have one order, which sorting finds. -/
theorem mergeSort_eq_of_perm (h : ComparesBy key le) (hperm : l.Perm l')
    (hl' : l'.Pairwise (key · < key ·)) : l.mergeSort le = l' := by
  have hall : (l.mergeSort le).Perm l' := (List.mergeSort_perm l le).trans hperm
  have hlt : (l.mergeSort le).Pairwise (key · < key ·) := by
    have hne : (l.mergeSort le).Pairwise (key · ≠ key ·) :=
      (hall.pairwise_iff Ne.symm).mpr (hl'.imp ne_of_lt)
    exact (h.pairwise_mergeSort l).imp₂ (fun _ _ => lt_of_le_of_ne) hne
  exact hall.eq_of_pairwise (fun _ _ _ _ hab hba => absurd hba (lt_asymm hab)) hlt hl'

end ComparesBy

end ScriptSuite
