import ScriptSuite.Proofs.Script.Grammar

/-!
# Proofs/Script/Uniqueness — lines define one script

The grammar leaves no choice.  The lines up to the first that emits a step are found by going
through them: an instruction has one action and one response, and a line that emits a step ends them
(`Emits.append_inj`).  So lines say one list of steps (`Steps.unique`), and define one script
(`Describes.unique`).
-/

namespace ScriptSuite

open Header

/-- **A list is cut in one way** into elements with a property and a rest that begins with none. -/
theorem append_inj_of_forall {α : Type} {p : α → Prop} {xs xs' rest rest' : List α}
    (hxs : ∀ x ∈ xs, p x) (hrest : ∀ y ∈ rest.head?, ¬ p y) (hxs' : ∀ x ∈ xs', p x)
    (hrest' : ∀ y ∈ rest'.head?, ¬ p y) (h : xs ++ rest = xs' ++ rest') :
    xs = xs' ∧ rest = rest' := by
  induction xs generalizing xs' with
  | nil =>
    cases xs' with
    | nil => exact ⟨rfl, h⟩
    | cons x' xs' =>
      rw [List.nil_append] at h
      exact absurd (hxs' x' (List.mem_cons_self ..)) (hrest x' (by rw [h]; rfl))
  | cons x xs ih =>
    cases xs' with
    | nil =>
      rw [List.nil_append] at h
      exact absurd (hxs x (List.mem_cons_self ..)) (hrest' x (by rw [← h]; rfl))
    | cons x' xs' =>
      obtain ⟨rfl, htail⟩ := List.cons_eq_cons.mp h
      obtain ⟨rfl, rfl⟩ := ih (fun y hy => hxs y (List.mem_cons_of_mem _ hy))
        (fun y hy => hxs' y (List.mem_cons_of_mem _ hy)) htail
      exact ⟨rfl, rfl⟩

namespace Grammar

variable {o : Script.Options} {ls ls' rest rest' : List Line} {l l' : Line}

/-! ## Steps -/

theorem Redirects.unique {flag flag' : Bool} (h : Redirects o ls flag)
    (h' : Redirects o ls flag') : flag = flag' := by
  rw [Redirects] at h h'
  split at h <;> rename_i hvalue <;> rw [hvalue] at h'
  · exact Option.some.inj ((boolOfText?_eq_some_iff.mpr h).symm.trans
      (boolOfText?_eq_some_iff.mpr h'))
  · exact h.trans h'.symm

theorem not_idle_of_content (h : l.kind = .content) : ¬ (l.isHash = true ∨ l.kind = .blank) := by
  simp [Line.isHash, h]

theorem not_idle_of_dash {target : String} (h : l.kind = .dash target) :
    ¬ (l.isHash = true ∨ l.kind = .blank) := by
  simp [Line.isHash, h]

section Says

variable {i i' : Instruction}

/-- The action of an instruction is no line between steps. -/
theorem Says.not_idle (h : Says o ls i) : ¬ Idle ls := by
  cases h with
  | intro _ haction =>
    exact fun hidle => not_idle_of_content haction (hidle _ (by simp))

/-- An instruction does not begin where an embed does. -/
theorem Says.append_ne {target : String} (h : Says o ls i) (hidle : Idle ls')
    (hl : l.kind = .dash target) : ls ++ rest ≠ ls' ++ l :: rest' := by
  intro heq
  cases h with
  | intro hidle₀ haction =>
    simp only [List.append_assoc, List.cons_append] at heq
    obtain ⟨-, htail⟩ := append_inj_of_forall hidle₀ (by simpa using not_idle_of_content haction)
      hidle (by simpa using not_idle_of_dash hl) heq
    obtain ⟨rfl, -⟩ := List.cons_eq_cons.mp htail
    rw [haction] at hl
    exact absurd hl (by simp)

/-- **The lines of an instruction** end at one place, and say one instruction. -/
theorem Says.append_inj (h : Says o ls i) (hrest : ∀ l ∈ rest.head?, l.kind = .blank)
    (h' : Says o ls' i') (hrest' : ∀ l ∈ rest'.head?, l.kind = .blank)
    (heq : ls ++ rest = ls' ++ rest') : ls = ls' ∧ rest = rest' ∧ i = i' := by
  have hblank : ∀ ls : List Line, (∀ l ∈ ls.head?, l.kind = .blank) →
      ∀ l ∈ ls.head?, ¬ l.isHash = true := fun ls hls l hl => by simp [Line.isHash, hls l hl]
  cases h with
  | intro hidle haction hinner hresponse hafter hflag =>
    cases h' with
    | intro hidle' haction' hinner' hresponse' hafter' hflag' =>
      simp only [List.append_assoc, List.cons_append] at heq
      obtain ⟨rfl, haction₁⟩ := append_inj_of_forall hidle
        (by simpa using not_idle_of_content haction) hidle'
        (by simpa using not_idle_of_content haction') heq
      obtain ⟨rfl, hinner₁⟩ := List.cons_eq_cons.mp haction₁
      obtain ⟨rfl, hresponse₁⟩ := append_inj_of_forall hinner
        (by simp [hresponse.isHash_eq_false]) hinner'
        (by simp [hresponse'.isHash_eq_false]) hinner₁
      obtain ⟨rfl, hafter₁⟩ := List.cons_eq_cons.mp hresponse₁
      obtain ⟨rfl, rfl⟩ := append_inj_of_forall hafter (hblank _ hrest) hafter'
        (hblank _ hrest') hafter₁
      obtain rfl := hflag.unique hflag'
      exact ⟨rfl, rfl, rfl⟩

end Says

section Emits

variable {step step' : Step}

/-- A line that emits a step, or an action before it, is no line between steps. -/
theorem Emits.not_idle (h : Emits o ls l step) : ¬ Idle (ls ++ l :: rest) := by
  cases h with
  | embed _ hl => exact fun hidle => not_idle_of_dash hl (hidle _ (by simp))
  | instruction hsaid =>
    exact fun hidle => hsaid.not_idle fun l' hl' => hidle l' (List.mem_append_left _ hl')

/-- **The first line that emits a step** is one line, and emits one step. -/
theorem Emits.append_inj (h : Emits o ls l step) (h' : Emits o ls' l' step')
    (heq : ls ++ l :: rest = ls' ++ l' :: rest') : rest = rest' ∧ step = step' := by
  cases h with
  | embed hidle hl hflag =>
    cases h' with
    | embed hidle' hl' hflag' =>
      obtain ⟨rfl, htail⟩ := append_inj_of_forall hidle (by simpa using not_idle_of_dash hl)
        hidle' (by simpa using not_idle_of_dash hl') heq
      obtain ⟨rfl, rfl⟩ := List.cons_eq_cons.mp htail
      obtain rfl := Line.Kind.dash.inj (hl.symm.trans hl')
      obtain rfl := hflag.unique hflag'
      exact ⟨rfl, rfl⟩
    | instruction hsaid' hl' => exact absurd heq.symm (hsaid'.append_ne hidle hl)
  | instruction hsaid hl =>
    cases h' with
    | embed hidle' hl' hflag' => exact absurd heq (hsaid.append_ne hidle' hl')
    | instruction hsaid' hl' =>
      obtain ⟨-, htail, rfl⟩ := hsaid.append_inj (by simpa using hl) hsaid' (by simpa using hl') heq
      exact ⟨(List.cons_eq_cons.mp htail).2, rfl⟩

/-- An instruction at the end of lines is emitted by none of them. -/
theorem Says.ne_append {i : Instruction} (h : Says o ls i) (h' : Emits o ls' l step) :
    ls ≠ ls' ++ l :: rest := by
  intro heq
  rw [← List.append_nil ls] at heq
  cases h' with
  | embed hidle hl => exact h.append_ne hidle hl heq
  | instruction hsaid hl =>
    obtain ⟨-, htail, -⟩ := h.append_inj (by simp) hsaid (by simpa using hl) heq
    exact absurd htail (by simp)

end Emits

/-- **Lines say one list of steps.** -/
theorem Steps.unique {steps steps' : List Step} (h : Steps o ls steps)
    (h' : Steps o ls steps') : steps = steps' := by
  induction h generalizing steps' with
  | @nil ls hidle =>
    generalize hls : ls = ls' at h'
    cases h' with
    | nil => rfl
    | last hsaid => exact absurd (hls ▸ hidle) hsaid.not_idle
    | cons hemits => exact absurd (hls ▸ hidle) hemits.not_idle
  | @last ls i hsaid =>
    generalize hls : ls = ls' at h'
    cases h' with
    | nil hidle => exact absurd (hls ▸ hidle) hsaid.not_idle
    | last hsaid' =>
      subst hls
      have hsame : ls ++ [] = ls ++ [] := rfl
      obtain ⟨-, -, rfl⟩ := hsaid.append_inj (by simp) hsaid' (by simp) hsame
      rfl
    | cons hemits => exact absurd hls (hsaid.ne_append hemits)
  | @cons ls rest l step steps hemits hrest ih =>
    generalize hls : ls ++ l :: rest = ls' at h'
    cases h' with
    | nil hidle => exact absurd (hls ▸ hidle) hemits.not_idle
    | last hsaid => exact absurd hls.symm (hsaid.ne_append hemits)
    | cons hemits' hrest' =>
      obtain ⟨rfl, rfl⟩ := hemits.append_inj hemits' hls
      rw [ih hrest']

/-! ## Scripts -/

theorem Holds.unique {key : Key} {usual held held' : Option Entry} (h : Holds ls key usual held)
    (h' : Holds ls key usual held') : held = held' := by
  rw [Holds] at h h'
  split at h <;> rename_i hvalue <;> rw [hvalue] at h'
  · obtain ⟨entry, hmeans, rfl⟩ := h
    obtain ⟨entry', hmeans', rfl⟩ := h'
    have hread := read_eq_ok_iff.mpr hmeans
    rw [read_eq_ok_iff.mpr hmeans'] at hread
    exact congrArg some (Except.ok.inj hread).symm
  · exact h.trans h'.symm

/-- **Lines define one script.** -/
theorem Describes.unique {s s' : Script} (h : Describes o ls s) (h' : Describes o ls s') :
    s = s' := by
  have hentry := fun key hkey => (h.entries key hkey).unique (h'.entries key hkey)
  have hid := h.id.symm.trans h'.id
  have htitle := hentry .title (by simp)
  have hstartUri := hentry .startUri (by simp)
  have hsiteId := Option.map_injective (fun _ _ => Entry.siteId.inj) (hentry .siteId (by simp))
  have hfeature := Option.map_injective (fun _ _ => Entry.feature.inj) (hentry .featureId (by simp))
  have htags := hentry .tags (by simp)
  have hbrowsers := hentry .browsers (by simp)
  have hexecute := hentry .execute (by simp)
  have hstate := hentry .state (by simp)
  have hpriority := hentry .priority (by simp)
  have hdescription := h.description.trans h'.description.symm
  have hsteps := h.steps.unique h'.steps
  have hlocation := h.location.trans h'.location.symm
  cases s
  cases s'
  simp_all [Script.held?]

end Grammar

end ScriptSuite
