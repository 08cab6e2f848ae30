import ScriptSuite.Text.Lines

/-!
# Proofs/Text/Cutting — putting back together what was cut

Cutting a text at its line feeds, and joining lines that have none, undo one another
(`lines_join`).  A text without the separator is a piece (`pieces_of_notMem`), and
the pieces of a text that goes on behind a separator are one more (`pieces_append`).
-/

namespace ScriptSuite

variable {sep : Char}

/-! ## One piece -/

/-- A separator ends the piece before it. -/
theorem cutBefore_append_cons {p : List Char} (hp : sep ∉ p) (cs : List Char)
    (ps : List (List Char)) :
    cutBefore sep (p ++ sep :: cs) ps = p :: cutBefore sep cs ps := by
  induction p with
  | nil => simp [cutStep]
  | cons c p ih =>
    rw [List.mem_cons, not_or] at hp
    rw [List.cons_append, cutBefore_cons, ih hp.2, cutStep, if_neg (Ne.symm hp.1), consFirst]

theorem pieces_append {p : List Char} (hp : sep ∉ p) (cs : List Char) :
    pieces sep (p ++ sep :: cs) = p :: pieces sep cs := cutBefore_append_cons hp cs [[]]

theorem lines_append {l : List Char} (hl : '\n' ∉ l) (cs : List Char) :
    lines (l ++ '\n' :: cs) = l :: lines cs := cutBefore_append_cons hl cs []

/-- **A text without the separator** is its only piece. -/
theorem pieces_of_notMem {p : List Char} (hp : sep ∉ p) : pieces sep p = [p] := by
  induction p with
  | nil => rfl
  | cons c p ih =>
    rw [List.mem_cons, not_or] at hp
    rw [pieces_cons, ih hp.2, cutStep, if_neg (Ne.symm hp.1), consFirst]

/-- **A text without a line feed** is its only line, unless it is empty. -/
theorem lines_of_notMem {cs : List Char} (hfeed : '\n' ∉ cs) (hne : cs ≠ []) : lines cs = [cs] := by
  induction cs with
  | nil => exact absurd rfl hne
  | cons c cs ih =>
    rw [List.mem_cons, not_or] at hfeed
    rw [lines_cons, cutStep, if_neg (Ne.symm hfeed.1)]
    cases cs with
    | nil => rfl
    | cons c' cs => rw [ih hfeed.2 (by simp), consFirst]

/-- There is a first piece. -/
theorem exists_pieces_eq_cons (sep : Char) (cs : List Char) :
    ∃ p ps, pieces sep cs = p :: ps := by
  cases cs with
  | nil => exact ⟨[], [], rfl⟩
  | cons c cs =>
    rw [pieces_cons, cutStep]
    split
    · exact ⟨[], pieces sep cs, rfl⟩
    · cases pieces sep cs with
      | nil => exact ⟨[c], [], rfl⟩
      | cons p ps => exact ⟨c :: p, ps, rfl⟩

/-! ## No piece holds the separator -/

theorem notMem_of_mem_cutBefore {cs : List Char} {ps : List (List Char)}
    (hps : ∀ p ∈ ps, sep ∉ p) : ∀ p ∈ cutBefore sep cs ps, sep ∉ p := by
  induction cs with
  | nil => exact hps
  | cons c cs ih =>
    rw [cutBefore_cons, cutStep]
    by_cases hc : c = sep
    · rw [if_pos hc]
      intro p hp
      rcases List.mem_cons.mp hp with rfl | hp
      · exact List.not_mem_nil
      · exact ih p hp
    · rw [if_neg hc]
      cases hcut : cutBefore sep cs ps with
      | nil =>
        intro p hp
        rw [List.mem_singleton.mp hp, List.mem_singleton]
        exact Ne.symm hc
      | cons q qs =>
        rw [hcut] at ih
        intro p hp
        rcases List.mem_cons.mp hp with rfl | hp
        · rw [List.mem_cons, not_or]
          exact ⟨Ne.symm hc, ih q (List.mem_cons_self ..)⟩
        · exact ih p (List.mem_cons_of_mem q hp)

theorem notMem_of_mem_pieces {cs p : List Char} (hp : p ∈ pieces sep cs) : sep ∉ p :=
  notMem_of_mem_cutBefore (by simp) p hp

theorem notMem_of_mem_lines {cs l : List Char} (hl : l ∈ lines cs) : '\n' ∉ l :=
  notMem_of_mem_cutBefore (by simp) l hl

/-! ## Pieces hold nothing new -/

theorem mem_of_mem_cutBefore {c : Char} {cs : List Char} {ps : List (List Char)}
    {p : List Char} (hp : p ∈ cutBefore sep cs ps) (hc : c ∈ p) :
    c ∈ cs ∨ ∃ q ∈ ps, c ∈ q := by
  induction cs generalizing p with
  | nil => exact Or.inr ⟨p, hp, hc⟩
  | cons d cs ih =>
    have hrest : ∀ q ∈ cutBefore sep cs ps, c ∈ q → c ∈ d :: cs ∨ ∃ q ∈ ps, c ∈ q :=
      fun q hq hcq => (ih hq hcq).imp_left (List.mem_cons_of_mem d)
    rw [cutBefore_cons, cutStep] at hp
    split at hp
    · rcases List.mem_cons.mp hp with rfl | hp
      · exact absurd hc List.not_mem_nil
      · exact hrest p hp hc
    · cases hcut : cutBefore sep cs ps with
      | nil =>
        rw [hcut, consFirst, List.mem_singleton] at hp
        rw [hp, List.mem_singleton] at hc
        exact Or.inl (hc ▸ List.mem_cons_self ..)
      | cons q qs =>
        rw [hcut, consFirst, List.mem_cons] at hp
        rw [hcut] at hrest
        rcases hp with rfl | hp
        · rcases List.mem_cons.mp hc with rfl | hc
          · exact Or.inl (List.mem_cons_self ..)
          · exact hrest q (List.mem_cons_self ..) hc
        · exact hrest p (List.mem_cons_of_mem q hp) hc

theorem mem_of_mem_pieces {c : Char} {cs p : List Char} (hp : p ∈ pieces sep cs) (hc : c ∈ p) :
    c ∈ cs := by
  rcases mem_of_mem_cutBefore hp hc with h | ⟨q, hq, h⟩
  · exact h
  · rw [List.mem_singleton.mp hq] at h
    exact absurd h List.not_mem_nil

/-! ## Joined lines -/

theorem toList_join_cons (l : String) (ls : List String) :
    (String.join ((l :: ls).map (· ++ "\n"))).toList =
      l.toList ++ '\n' :: (String.join (ls.map (· ++ "\n"))).toList := by
  simp

/-- Lines that were joined are cut off a text that begins with them. -/
theorem lines_flatMap_append {ls : List (List Char)} (hls : ∀ l ∈ ls, '\n' ∉ l) (cs : List Char) :
    lines (ls.flatMap (· ++ ['\n']) ++ cs) = ls ++ lines cs := by
  induction ls with
  | nil => rfl
  | cons l ls ih =>
    rw [List.flatMap_cons, List.append_assoc, List.append_assoc, List.singleton_append,
      lines_append (hls l (List.mem_cons_self ..)),
      ih fun l' hl' => hls l' (List.mem_cons_of_mem l hl'), List.cons_append]

/-- **A place in a text** is a place in one of its lines: some lines with their line feeds stand
before it, and part of its own. -/
theorem exists_flatMap_append (cs : List Char) : ∃ (ls : List (List Char)) (front : List Char),
    cs = ls.flatMap (· ++ ['\n']) ++ front ∧ '\n' ∉ front ∧ (∀ l ∈ ls, '\n' ∉ l) ∧
      ls.length = cs.count '\n' := by
  induction cs with
  | nil => exact ⟨[], [], rfl, List.not_mem_nil, by simp, rfl⟩
  | cons c cs ih =>
    obtain ⟨ls, front, rfl, hfront, hls, hlength⟩ := ih
    by_cases hc : c = '\n'
    · subst hc
      exact ⟨[] :: ls, front, rfl, hfront, by simpa using hls, by simp [hlength]⟩
    · rw [List.count_cons_of_ne hc, ← hlength]
      have hjoins : ∀ p : List Char, '\n' ∉ p → '\n' ∉ c :: p :=
        fun p hp => by simp [Ne.symm hc, hp]
      cases ls with
      | nil => exact ⟨[], c :: front, rfl, hjoins front hfront, by simp, rfl⟩
      | cons l ls =>
        obtain ⟨hl, hls⟩ := List.forall_mem_cons.mp hls
        exact ⟨(c :: l) :: ls, front, rfl, hfront, List.forall_mem_cons.mpr ⟨hjoins l hl, hls⟩, rfl⟩

theorem lines_join_append {ls : List String} (hls : ∀ l ∈ ls, '\n' ∉ l.toList) (cs : List Char) :
    lines ((String.join (ls.map (· ++ "\n"))).toList ++ cs) = ls.map String.toList ++ lines cs := by
  have hjoin : (String.join (ls.map (· ++ "\n"))).toList =
      (ls.map String.toList).flatMap (· ++ ['\n']) := by
    induction ls with
    | nil => simp
    | cons l ls ih =>
      rw [toList_join_cons, ih fun l' hl' => hls l' (List.mem_cons_of_mem l hl')]
      simp
  rw [hjoin, lines_flatMap_append (List.forall_mem_map.mpr hls)]

/-- **Lines that were joined** are cut again. -/
theorem lines_join {ls : List String} (hls : ∀ l ∈ ls, '\n' ∉ l.toList) :
    lines (String.join (ls.map (· ++ "\n"))).toList = ls.map String.toList := by
  simpa using lines_join_append hls []

/-- Joined lines end with a line feed. -/
theorem getLast?_join {ls : List String} (hne : ls ≠ []) :
    (String.join (ls.map (· ++ "\n"))).toList.getLast? = some '\n' := by
  induction ls with
  | nil => exact absurd rfl hne
  | cons l ls ih =>
    rw [toList_join_cons, List.getLast?_append, List.getLast?_cons]
    cases ls with
    | nil => rfl
    | cons l' ls => rw [ih (by simp), Option.getD_some, Option.some_or]

theorem linesOf_join {ls : List String} (hls : ∀ l ∈ ls, '\n' ∉ l.toList) :
    linesOf (String.join (ls.map (· ++ "\n"))) = ls := by
  rw [linesOf, lines_join hls, List.map_map]
  simp

end ScriptSuite
