import Mathlib.Data.String.Basic
import ScriptSuite.Proofs.Disk.Distinct
import ScriptSuite.Proofs.Text.Cutting

/-!
# Proofs/Disk/Spelling — the order of paths and the order of their spellings

Paths stand in the order of their components, and texts in the order of their characters.  For paths
that are spelled plainly (`Path.Plain`), the first of these is an order of characters too, in which
the slash comes before every other one (`Path.Plain.before_iff`).  So the two orders differ where a
path has a slash and another one, until then the same, has a character that stands before the slash,
such as a dot: the other path **overtakes** it (`Path.Plain.before_and_lt_iff`).
-/

namespace ScriptSuite

/-! ## Where two lists part -/

section Lex

variable {α : Type} {r s : α → α → Prop} {as bs : List α}

/-- **Lists that two orders compare differently** part at two elements that these orders compare
differently. -/
theorem lex_and_lex_iff (hr : ∀ a, ¬ r a a) (hs : ∀ a, ¬ s a a) :
    List.Lex r as bs ∧ List.Lex s bs as ↔
      ∃ (way : List α) (a b : α) (as' bs' : List α),
        as = way ++ a :: as' ∧ bs = way ++ b :: bs' ∧ r a b ∧ s b a := by
  constructor
  · rintro ⟨h, h'⟩
    induction h with
    | nil => cases h'
    | @cons a as bs _ ih =>
      rcases List.cons_lex_cons_iff.mp h' with haa | ⟨-, h'⟩
      · exact absurd haa (hs a)
      · obtain ⟨way, b, c, as', bs', rfl, rfl, hbc⟩ := ih h'
        exact ⟨a :: way, b, c, as', bs', rfl, rfl, hbc⟩
    | @rel a as b bs hab =>
      rcases List.cons_lex_cons_iff.mp h' with hba | ⟨rfl, -⟩
      · exact ⟨[], a, b, as, bs, rfl, rfl, hab, hba⟩
      · exact absurd hab (hr b)
  · rintro ⟨way, a, b, as', bs', rfl, rfl, hab, hba⟩
    exact ⟨.append_left r (.rel hab) way, .append_left s (.rel hba) way⟩

end Lex

/-! ## The order of pieces -/

/-- **The order of characters in which a separator comes first.** -/
def SeparatorFirst (sep a b : Char) : Prop := b ≠ sep ∧ (a = sep ∨ a < b)

/-- **Texts piece by piece** are texts character by character, when the separator comes first. -/
theorem pieces_lt_pieces_iff (sep : Char) (cs ds : List Char) :
    pieces sep cs < pieces sep ds ↔ List.Lex (SeparatorFirst sep) cs ds := by
  induction cs generalizing ds with
  | nil =>
    cases ds with
    | nil => simp
    | cons d ds =>
      obtain ⟨q, qs, hqs⟩ := exists_pieces_eq_cons sep ds
      by_cases hd : d = sep <;> simp [cutStep, hd, hqs, consFirst, List.cons_lt_cons_iff]
  | cons c cs ih =>
    obtain ⟨p, ps, hps⟩ := exists_pieces_eq_cons sep cs
    cases ds with
    | nil =>
      by_cases hc : c = sep <;>
        simp [cutStep, hc, hps, consFirst, List.cons_lt_cons_iff, -not_lt, -List.not_lt]
    | cons d ds =>
      obtain ⟨q, qs, hqs⟩ := exists_pieces_eq_cons sep ds
      have ih := ih ds
      rw [hps, hqs] at ih
      by_cases hc : c = sep <;> by_cases hd : d = sep <;>
        simp [cutStep, hc, hd, hps, hqs, consFirst, SeparatorFirst, ← ih, List.cons_lex_cons_iff,
          List.cons_lt_cons_iff, or_assoc, and_assoc, and_or_left]

namespace Path

/-! ## Plain paths -/

/-- A piece of a path that is the name of a file or of a directory. -/
def IsName (piece : List Char) : Prop := piece ≠ [] ∧ piece ≠ ['.'] ∧ piece ≠ ['.', '.']

/-- **A path that is spelled plainly**: names with slashes between, and perhaps one in front. -/
def Plain (path : String) : Prop :=
  (∀ piece ∈ pieces '/' path.toList, IsName piece) ∨
    ∃ names ≠ [], pieces '/' path.toList = [] :: names ∧ ∀ piece ∈ names, IsName piece

/-- The component that a piece of a plain path is. -/
def plainComponent (piece : List Char) : Component :=
  if piece = [] then .root else .name (String.ofList piece)

theorem plainComponent_injective : Function.Injective plainComponent := by
  intro p q h
  by_cases hp : p = [] <;> by_cases hq : q = [] <;>
    simp_all [plainComponent, String.ofList_inj]

theorem name_before_name_iff {s t : String} :
    (Component.name s).Before (.name t) ↔ s < t := by
  refine ⟨fun h => ?_, .name⟩
  cases h with
  | kind h => exact absurd h (lt_irrefl _)
  | name h => exact h

theorem plainComponent_before_iff (p q : List Char) :
    (plainComponent p).Before (plainComponent q) ↔ p < q := by
  cases p with
  | nil => cases q <;> simp [plainComponent, Component.before_iff, Component.rank]
  | cons c p =>
    cases q with
    | nil => simp [plainComponent, Component.before_iff, Component.rank]
    | cons d q =>
      rw [plainComponent, plainComponent, if_neg (List.cons_ne_nil c p),
        if_neg (List.cons_ne_nil d q), name_before_name_iff, String.lt_iff_toList_lt,
        String.toList_ofList, String.toList_ofList]

theorem IsName.ofPiece?_eq {piece : List Char} (h : IsName piece) :
    Component.ofPiece? piece = some (plainComponent piece) := by
  obtain ⟨hne, hdot, hdots⟩ := h
  simp [Component.ofPiece?, plainComponent, hne, hdot, hdots]

/-- **The components of a plain path** are its pieces. -/
theorem Plain.components_eq {path : String} (h : Plain path) :
    components path = (pieces '/' path.toList).map plainComponent := by
  have hnames : ∀ names : List (List Char), (∀ piece ∈ names, IsName piece) →
      names.filterMap Component.ofPiece? = names.map plainComponent := by
    intro names hnames
    rw [← List.filterMap_eq_map]
    exact List.filterMap_congr fun piece hpiece => (hnames piece hpiece).ofPiece?_eq
  have hne : path.isEmpty = false := by
    rw [Bool.eq_false_iff, ne_eq, String.isEmpty_iff]
    rintro rfl
    simp [Plain, IsName] at h
  simp only [components, hne, Bool.false_eq_true, if_false]
  rcases h with h | ⟨names, -, hpieces, h⟩
  · obtain ⟨piece, rest, hpieces⟩ := exists_pieces_eq_cons '/' path.toList
    have hpiece := h piece (hpieces ▸ List.mem_cons_self)
    rw [hnames _ h, hpieces, List.head?_cons]
    split
    · next heq => exact absurd (Option.some.inj heq) hpiece.1
    · next heq => exact absurd (Option.some.inj heq) hpiece.2.1
    · rfl
  · rw [hpieces, List.map_cons, ← hnames names h]
    rfl

variable {p q : String}

/-- **The order of plain paths** is that of their characters, when the slash comes first. -/
theorem Plain.before_iff (hp : Plain p) (hq : Plain q) :
    Before p q ↔ List.Lex (SeparatorFirst '/') p.toList q.toList := by
  rw [Before, hp.components_eq, hq.components_eq, lex_map_iff plainComponent_injective]
  simp only [plainComponent_before_iff, List.lex_lt, pieces_lt_pieces_iff]

/-- **A path overtakes another**: where they part, the other one has a slash, and it has a character
that stands before the slash. -/
def Overtakes (p q : String) : Prop :=
  ∃ (way : List Char) (c : Char) (rest rest' : List Char),
    p.toList = way ++ c :: rest ∧ q.toList = way ++ '/' :: rest' ∧ c < '/'

/-- **The two orders of plain paths differ** where a path overtakes another. -/
theorem Plain.before_and_lt_iff (hp : Plain p) (hq : Plain q) :
    Before q p ∧ p < q ↔ Overtakes p q := by
  rw [hq.before_iff hp, String.lt_iff_toList_lt, ← List.lex_lt,
    lex_and_lex_iff (fun c hc => hc.2.elim hc.1 (lt_irrefl c)) lt_irrefl]
  constructor
  · rintro ⟨way, c, d, rest', rest, hq, hp, ⟨hd, hc | hcd⟩, hdc⟩
    · subst hc
      exact ⟨way, d, rest, rest', hp, hq, hdc⟩
    · exact absurd hdc (lt_asymm hcd)
  · rintro ⟨way, c, rest, rest', hp, hq, hc⟩
    exact ⟨way, '/', c, rest', rest, hq, hp, ⟨hc.ne, .inl rfl⟩, hc⟩

end Path

end ScriptSuite
