import Mathlib.Data.List.Basic
import Mathlib.Data.List.TakeWhile
import ScriptSuite.Script.Placeholder

/-!
# Proofs/Script/Placeholders — reading a placeholder, and writing it

A **placeholder** is a text of a certain form (`Placeholder.text`).  Reading what a text begins with
finds a placeholder exactly when one stands there (`Placeholder.at?_eq_some_iff`), and there are
never two (`Placeholder.text_append_inj`).
-/

namespace ScriptSuite

namespace Upload

variable {cs rest : List Char} {n : Nat} {kind : UploadKind}

/-! ## Spaces and parentheses -/

theorem skipSpaces_replicate_append (n : Nat) (h : cs.head? ≠ some ' ') :
    skipSpaces (List.replicate n ' ' ++ cs) = cs := by
  rw [skipSpaces, List.dropWhile_append_of_pos (by simp)]
  cases cs with
  | nil => rfl
  | cons c cs =>
    rw [List.dropWhile_cons_of_neg]
    simpa using h

theorem pathOf_append_cons {path : List Char} (h : ')' ∉ path) (cs : List Char) :
    pathOf (path ++ ')' :: cs) = path := by
  have hpath : ∀ c ∈ path, decide (c ≠ ')') = true := by
    intro c hc
    simpa using ne_of_mem_of_not_mem hc h
  rw [pathOf, List.takeWhile_append_of_pos hpath, List.takeWhile_cons_of_neg (by simp),
    List.append_nil]

theorem behindPath_append_cons {path : List Char} (h : ')' ∉ path) (cs : List Char) :
    behindPath (path ++ ')' :: cs) = cs := by
  rw [behindPath_append path h]
  rfl

/-! ## The opening and the closing -/

/-- A closing, as it is written. -/
def closingText (n : Nat) : List Char := ')' :: (List.replicate n ' ' ++ ['\x7d', '\x7d'])

theorem kind?_name_append (kind : UploadKind) (cs : List Char) :
    kind? (kind.name.toList ++ cs) = some (kind, cs) := by
  cases kind <;> rfl

theorem opening?_openingText_append (n : Nat) (kind : UploadKind) (h : rest.head? ≠ some ')') :
    opening? (openingText n kind ++ rest) = some (kind, rest) := by
  have hspaces : skipSpaces (List.replicate n ' ' ++
      ("file.".toList ++ (kind.name.toList ++ '(' :: rest))) =
        "file.".toList ++ (kind.name.toList ++ '(' :: rest) :=
    skipSpaces_replicate_append n (by simp)
  have hfile : "file.".toList.isPrefixOf? ("file.".toList ++ (kind.name.toList ++ '(' :: rest)) =
      some (kind.name.toList ++ '(' :: rest) :=
    List.isPrefixOf?_eq_some_iff_append_eq.mpr rfl
  simp only [openingText, opening?, List.cons_append, List.nil_append, List.append_assoc, hspaces,
    hfile, kind?_name_append, Option.bind_eq_bind, Option.bind_some]
  cases rest with
  | nil => rfl
  | cons c rest =>
    have hc : c ≠ ')' := by simpa using h
    split <;> simp_all

theorem closing?_eq_some_iff :
    closing? cs = some rest ↔ ∃ n, cs = List.replicate n ' ' ++ '\x7d' :: '\x7d' :: rest := by
  constructor
  · intro h
    obtain ⟨n, hn⟩ := exists_replicate_append_skipSpaces cs
    unfold closing? at h
    split at h
    · next heq =>
      cases h
      exact ⟨n, heq ▸ hn⟩
    · cases h
  · rintro ⟨n, rfl⟩
    rw [closing?, skipSpaces_replicate_append n (by simp)]
    rfl

theorem exists_closingText_append (h : closing? (behindPath cs) = some rest) :
    ∃ path n, ')' ∉ path ∧ cs = path ++ (closingText n ++ rest) := by
  by_cases hmem : ')' ∈ cs
  · obtain ⟨path, behind, rfl, hpath⟩ := List.eq_append_cons_of_mem hmem
    rw [behindPath_append_cons hpath] at h
    obtain ⟨n, rfl⟩ := closing?_eq_some_iff.mp h
    exact ⟨path, n, hpath, by simp [closingText]⟩
  · rw [← List.append_nil cs, behindPath_append cs hmem] at h
    cases h

end Upload

/-! ## Placeholders -/

/-- **A placeholder**: the kind of a file, its path, and the spaces behind the opening braces and in
front of the closing ones. -/
structure Placeholder where
  kind : UploadKind
  path : List Char
  before : Nat
  behind : Nat
  path_ne_nil : path ≠ []
  notMem_path : ')' ∉ path

namespace Placeholder

variable {cs rest rest' : List Char} {u : Upload} {p q : Placeholder}

/-- A placeholder, as it is written. -/
def text (p : Placeholder) : List Char :=
  Upload.openingText p.before p.kind ++ (p.path ++ Upload.closingText p.behind)

/-- The upload that a placeholder stands for: its path is without the blanks around it. -/
def upload (p : Placeholder) : Upload := .ofPath p.kind p.path

theorem length_text_pos (p : Placeholder) : 0 < p.text.length := by
  simp [text, Upload.openingText]

theorem head?_path_append (p : Placeholder) (cs : List Char) :
    (p.path ++ cs).head? ≠ some ')' := by
  obtain ⟨c, path, hpath⟩ := List.exists_cons_of_ne_nil p.path_ne_nil
  intro h
  rw [hpath, List.cons_append, List.head?_cons, Option.some.injEq] at h
  exact p.notMem_path (by simp [hpath, h])

theorem opening?_text_append (p : Placeholder) (rest : List Char) :
    Upload.opening? (p.text ++ rest) =
      some (p.kind, p.path ++ (Upload.closingText p.behind ++ rest)) := by
  rw [text, List.append_assoc, List.append_assoc]
  exact Upload.opening?_openingText_append _ _ (p.head?_path_append _)

theorem at?_text_append (p : Placeholder) (rest : List Char) :
    Upload.at? (p.text ++ rest) = some (p.upload, rest) := by
  have hclosing : Upload.closing? (List.replicate p.behind ' ' ++ '\x7d' :: '\x7d' :: rest) =
      some rest := Upload.closing?_eq_some_iff.mpr ⟨_, rfl⟩
  simp [Upload.at?, opening?_text_append, Upload.closingText, hclosing, upload,
    Upload.pathOf_append_cons p.notMem_path, Upload.behindPath_append_cons p.notMem_path]

/-- **What a text begins with** is read as a placeholder exactly when one stands there. -/
theorem at?_eq_some_iff : Upload.at? cs = some (u, rest) ↔
    ∃ p : Placeholder, cs = p.text ++ rest ∧ p.upload = u := by
  constructor
  · intro h
    unfold Upload.at? at h
    split at h
    · cases h
    · next kind behind hopening =>
      obtain ⟨after, hclosing, heq⟩ := Option.map_eq_some_iff.mp h
      cases heq
      obtain ⟨⟨before, rfl⟩, hhead⟩ := Upload.eq_openingText_append hopening
      obtain ⟨path, spaces, hpath, rfl⟩ := Upload.exists_closingText_append hclosing
      have hne : path ≠ [] := by
        rintro rfl
        exact hhead rfl
      refine ⟨⟨kind, path, before, spaces, hne, hpath⟩, ?_, ?_⟩
      · rw [text, List.append_assoc, List.append_assoc]
      · rw [upload, Upload.closingText, List.cons_append, Upload.pathOf_append_cons hpath]
  · rintro ⟨p, rfl, rfl⟩
    exact p.at?_text_append rest

theorem at?_eq_none (h : ∀ p : Placeholder, ¬ p.text <+: cs) : Upload.at? cs = none := by
  by_contra hne
  obtain ⟨⟨u, rest⟩, hsome⟩ := Option.ne_none_iff_exists'.mp hne
  obtain ⟨p, hp, -⟩ := at?_eq_some_iff.mp hsome
  exact h p ⟨rest, hp.symm⟩

/-- **One placeholder**: two that begin one text are the same, and end at the same place. -/
theorem text_append_inj (h : p.text ++ rest = q.text ++ rest') : p = q ∧ rest = rest' := by
  have hopening := p.opening?_text_append rest
  rw [h, q.opening?_text_append, Option.some.injEq, Prod.mk.injEq] at hopening
  obtain ⟨hkind, hbehind⟩ := hopening
  have hpath : q.path = p.path := by
    have := congrArg Upload.pathOf hbehind
    simpa only [Upload.closingText, List.cons_append, Upload.pathOf_append_cons p.notMem_path,
      Upload.pathOf_append_cons q.notMem_path] using this
  have hrest : rest' = rest := by
    have hread := p.at?_text_append rest
    rw [h, q.at?_text_append, Option.some.injEq, Prod.mk.injEq] at hread
    exact hread.2
  -- Only the numbers of spaces are left, which the lengths tell.
  have hspaces : q.behind = p.behind := by
    have := congrArg List.length hbehind
    simpa [hpath, hrest, Upload.closingText] using this
  have hbefore : p.before = q.before := by
    have := congrArg List.length h
    simpa [text, hkind, hpath, hrest, hspaces, Upload.openingText] using this
  obtain ⟨kind, path, before, behind, _, _⟩ := p
  obtain ⟨kind', path', before', behind', _, _⟩ := q
  exact ⟨by simp_all, hrest.symm⟩

end Placeholder

end ScriptSuite
