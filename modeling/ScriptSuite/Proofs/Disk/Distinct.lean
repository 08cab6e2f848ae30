import Mathlib.Data.List.Lex
import ScriptSuite.Disk.Path
import ScriptSuite.Proofs.Sorting

/-!
# Proofs/Disk/Distinct — the distinct paths, in their order

Paths are compared component by component (`Path.Before`), and the order of their keys is this order
(`Path.key_lt_iff`).  The distinct paths stand in it (`Path.pairwise_distinct`), and they are the
paths before which no equal one is given (`Path.mem_distinct_iff`).
-/

namespace ScriptSuite

/-! ## Keys of lists -/

section Lex

variable {α β : Type} {f : α → β}

/-- **Mapping does not change which list is the lesser**, when nothing is mapped together. -/
theorem lex_map_iff {r : β → β → Prop} (hf : Function.Injective f) {as bs : List α} :
    List.Lex r (as.map f) (bs.map f) ↔ List.Lex (fun a b => r (f a) (f b)) as bs := by
  induction as generalizing bs with
  | nil => cases bs <;> simp
  | cons a as ih =>
    cases bs with
    | nil => simp
    | cons b bs => simp only [List.map_cons, List.cons_lex_cons_iff, ih, hf.eq_iff]

end Lex

namespace Path

/-! ## The order of components -/

/-- The rank of a kind of component. -/
def Component.rank : Component → Nat
  | .root => 0
  | .here => 1
  | .parent => 2
  | .name _ => 3

/-- **A component stands before another**: the slash in front, the dot in front, two dots, and names
in the order of their characters. -/
@[mk_iff]
inductive Component.Before : Component → Component → Prop
  | kind {a b : Component} (h : a.rank < b.rank) : Before a b
  | name {s t : String} (h : s < t) : Before (.name s) (.name t)

theorem toNat_injective : Function.Injective Char.toNat := fun _ _ => Char.toNat_inj.mp

theorem Component.key_injective : Function.Injective Component.key := by
  intro a b h
  cases a <;> cases b <;> first | rfl | simp [Component.key] at h
  rw [String.toList_inj.mp (toNat_injective.list_map h)]

/-- **The order of keys** of components is that of components. -/
theorem Component.key_lt_iff (a b : Component) : a.key < b.key ↔ a.Before b := by
  have hname : ∀ s t : String, s.toList.map Char.toNat < t.toList.map Char.toNat ↔ s < t :=
    fun _ _ => lex_map_iff toNat_injective
  cases a <;> cases b <;>
    simp [Component.key, Component.before_iff, Component.rank, List.cons_lt_cons_iff, hname]

/-! ## The order of paths -/

/-- **A path stands before another** when it does at the first component that tells them apart. -/
def Before (p q : String) : Prop := List.Lex Component.Before (components p) (components q)

theorem key_lt_iff {p q : String} : key p < key q ↔ Before p q := by
  have hlex : key p < key q ↔
      List.Lex (fun a b : Component => a.key < b.key) (components p) (components q) :=
    lex_map_iff Component.key_injective
  simp only [hlex, Component.key_lt_iff]
  rfl

/-- **Paths are equal** as paths when their components are. -/
theorem key_eq_iff {p q : String} : key p = key q ↔ components p = components q :=
  Component.key_injective.list_map.eq_iff

theorem comparesBy_key :
    ComparesBy key fun p q => decide (List.le (key p) (key q)) :=
  fun _ _ => decide_eq_true_iff.trans not_lt

/-! ## The distinct paths -/

/-- **Putting a path in front** of distinct ones that do not stand before it leaves out the one that
is equal to it. -/
theorem consFirst_eq {p : String} {ps : List String} (hps : ps.Pairwise (key · < key ·))
    (hp : ∀ q ∈ ps, key p ≤ key q) :
    consFirst p ps = p :: ps.filter fun q => decide (key q ≠ key p) := by
  cases ps with
  | nil => rfl
  | cons q qs =>
    rw [List.pairwise_cons] at hps
    have hlt : ∀ r ∈ qs, key p < key r := fun r hr =>
      (hp q (List.mem_cons_self ..)).trans_lt (hps.1 r hr)
    have hqs : (qs.filter fun r => decide (key r ≠ key p)) = qs :=
      List.filter_eq_self.mpr fun r hr => decide_eq_true (hlt r hr).ne'
    rw [consFirst]
    split
    · rename_i heq
      rw [List.filter_cons_of_neg (by simpa using heq), hqs]
    · rename_i hne
      rw [List.filter_cons_of_pos (by simpa using hne), hqs]

/-- Of paths in order, the first with each key are left, and their keys are apart. -/
theorem foldr_consFirst {ps : List String} (hps : ps.Pairwise (key · ≤ key ·)) :
    (ps.foldr consFirst []).Pairwise (key · < key ·) ∧
      ∀ p, p ∈ ps.foldr consFirst [] ↔ ps.find? (fun q => decide (key q = key p)) = some p := by
  induction ps with
  | nil => simp
  | cons p ps ih =>
    rw [List.pairwise_cons] at hps
    obtain ⟨hlt, hmem⟩ := ih hps.2
    have hle : ∀ q ∈ ps.foldr consFirst [], key p ≤ key q := fun q hq =>
      hps.1 q (List.mem_of_find?_eq_some ((hmem q).mp hq))
    rw [List.foldr_cons, consFirst_eq hlt hle]
    refine ⟨List.pairwise_cons.mpr ⟨fun q hq => ?_, hlt.sublist List.filter_sublist⟩, fun q => ?_⟩
    · obtain ⟨hq, hne⟩ := List.mem_filter.mp hq
      exact lt_of_le_of_ne (hle q hq) (Ne.symm (of_decide_eq_true hne))
    · rw [List.mem_cons, List.mem_filter, hmem, decide_eq_true_eq]
      by_cases hkey : key p = key q
      · rw [List.find?_cons_of_pos (by simpa using hkey), Option.some.injEq]
        simp [hkey, eq_comm]
      · have hne : q ≠ p := fun h => hkey (h ▸ rfl)
        rw [List.find?_cons_of_neg (by simpa using hkey)]
        simp [hne, Ne.symm hkey]

theorem pairwise_sorted (paths : List String) : (sorted paths).Pairwise (key · ≤ key ·) :=
  comparesBy_key.pairwise_mergeSort paths

/-- Sorting does not change which of some equal paths comes first. -/
theorem find?_sorted (paths : List String) (k : List (List Nat)) :
    (sorted paths).find? (fun p => decide (key p = k)) =
      paths.find? fun p => decide (key p = k) := by
  rw [← List.head?_filter, ← List.head?_filter, sorted, comparesBy_key.filter_mergeSort]
  exact fun p q hp hq => (of_decide_eq_true hp).trans (of_decide_eq_true hq).symm

theorem pairwise_key_distinct (paths : List String) :
    (distinct paths).Pairwise (key · < key ·) :=
  (foldr_consFirst (pairwise_sorted paths)).1

/-- **The distinct paths stand in order.** -/
theorem pairwise_distinct (paths : List String) : (distinct paths).Pairwise Before :=
  (pairwise_key_distinct paths).imp key_lt_iff.mp

/-- **The distinct paths** are those before which no equal one is given. -/
theorem mem_distinct_iff {paths : List String} {p : String} : p ∈ distinct paths ↔
    paths.find? (fun q => decide (components q = components p)) = some p := by
  rw [distinct, (foldr_consFirst (pairwise_sorted paths)).2, find?_sorted]
  simp only [key_eq_iff]

/-- **The distinct ones of some paths**: of each, the first that is equal to it, in order. -/
structure DistinctOf (given paths : List String) : Prop where
  pairwise : paths.Pairwise Before
  mem_iff : ∀ p, p ∈ paths ↔ given.find? (fun q => decide (components q = components p)) = some p

/-- Paths have their distinct ones in one way only. -/
theorem DistinctOf.unique {given paths paths' : List String} (h : DistinctOf given paths)
    (h' : DistinctOf given paths') : paths = paths' := by
  have hkeys : ∀ {ps : List String}, DistinctOf given ps → ps.Pairwise (key · < key ·) :=
    fun hps => hps.pairwise.imp key_lt_iff.mpr
  have hnodup : ∀ {ps : List String}, DistinctOf given ps → ps.Nodup := fun hps =>
    List.nodup_iff_pairwise_ne.mpr ((hkeys hps).imp fun hlt => ne_of_apply_ne key hlt.ne)
  have hperm : paths.Perm paths' := (List.perm_ext_iff_of_nodup (hnodup h) (hnodup h')).mpr
    fun p => (h.mem_iff p).trans (h'.mem_iff p).symm
  exact hperm.eq_of_pairwise (fun _ _ _ _ hlt hgt => absurd hgt hlt.asymm) (hkeys h) (hkeys h')

end Path

end ScriptSuite
