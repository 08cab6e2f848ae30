import Mathlib.Data.List.Forall2
import ScriptSuite.Proofs.Script.HeaderLines
import ScriptSuite.Proofs.Script.RoundTrip

/-!
# Proofs/Script/Layout — how the lines of the canonical text are laid out

The canonical text of a script begins with its identity line; the header lines follow in the order
of their keys, then the description, and then the steps, each behind a blank line (`Layout`).  That
no other line looks like one of these hangs on what reading can leave in a field, so the layout is
that of a script that was read (`Script.layout_canonical`).
-/

namespace ScriptSuite

open Header Script

/-! ## Layouts -/

/-- The keys of the header lines of a canonical text, in their order. -/
def headerKeys : List Key :=
  [.title, .startUri, .siteId, .featureId, .tags, .browsers, .state, .priority, .execute]

/-- **Header lines with these keys**, in this order. -/
def KeyedLines (keys : List Key) (ls : List Line) : Prop :=
  List.Forall₂ (fun key l => ∃ value, l.kind = .header (Key.name key) value) keys ls

/-- **The line for a redirect flag**, which is there when the flag is not the default. -/
def RedirectLayout (o : Options) (flag : Bool) (ls : List Line) : Prop :=
  if flag = o.redirectDefault then ls = []
  else ∃ l, ls = [l] ∧ l.kind = .header Key.redirect.name (textOfBool flag)

/-- **The lines of a step**: a blank line, the line for its redirect flag, and then a dash line or
the two lines of its texts.  A response may begin with a dash; it stands behind its action. -/
inductive StepLayout (o : Options) : Step → List Line → Prop
  | embed {e : Embed} {blank dash : Line} {flagged : List Line} (hblank : blank.kind = .blank)
      (hflag : RedirectLayout o e.redirect flagged) (hdash : dash.kind = .dash e.target) :
      StepLayout o (.embed e) (blank :: (flagged ++ [dash]))
  | instruction {i : Instruction} {blank action response : Line} {flagged : List Line}
      (hblank : blank.kind = .blank) (hflag : RedirectLayout o i.redirect flagged)
      (haction : action.kind = .content) (hresponse : response.IsResponse)
      (htexts : action.text = onOneLine i.action ∧ response.text = onOneLine i.response) :
      StepLayout o (.instruction i) (blank :: (flagged ++ [action, response]))

/-- **The layout of a script**: its identity line, header lines, the description and the steps. -/
inductive Layout (o : Options) (s : Script) : List Line → Prop
  | intro {identity : Line} {keys : List Key} {headers description : List Line}
      {blocks : List (List Line)} (hidentity : identity.kind = .identity s.id)
      (hkeys : keys.Sublist headerKeys)
      (hheaders : KeyedLines keys headers)
      (hdescription : ∀ l ∈ description, l.isDescription = true)
      (hblocks : List.Forall₂ (StepLayout o) s.steps blocks) :
      Layout o s (identity :: (headers ++ description ++ blocks.flatten))

/-! ## What a layout tells -/

theorem Line.isDescription_iff {l : Line} : l.isDescription = true ↔
    (∃ name value, l.kind = .header name value ∧ Key.ofName? name = none) ∨ l.kind = .remark := by
  cases hkind : l.kind <;> simp [isDescription, hkind]

/-- **A line of a step** behind its blank line: a redirect line, a dash line or content. -/
def IsStepLine (l : Line) : Prop :=
  (∃ value, l.kind = .header Key.redirect.name value) ∨ (∃ target, l.kind = .dash target) ∨
    l.kind = .content

section Layouts

variable {o : Options} {s : Script} {step : Step} {ls : List Line} {key : Key}

theorem RedirectLayout.isStepLine {flag : Bool} (h : RedirectLayout o flag ls) :
    ∀ l ∈ ls, IsStepLine l := by
  rw [RedirectLayout] at h
  split at h
  · simp [h]
  · obtain ⟨l, rfl, hl⟩ := h
    exact List.forall_mem_singleton.mpr (.inl ⟨_, hl⟩)

/-- **A step** is laid out as one blank line, with lines of the step behind it. -/
theorem StepLayout.exists_eq_cons (h : StepLayout o step ls) :
    ∃ blank rest, ls = blank :: rest ∧ blank.kind = .blank ∧ ∀ l ∈ rest, IsStepLine l := by
  cases h with
  | embed hblank hflag hdash =>
    refine ⟨_, _, rfl, hblank, List.forall_mem_append.mpr ⟨hflag.isStepLine, ?_⟩⟩
    exact List.forall_mem_singleton.mpr (.inr (.inl ⟨_, hdash⟩))
  | instruction hblank hflag haction hresponse =>
    refine ⟨_, _, rfl, hblank, List.forall_mem_append.mpr ⟨hflag.isStepLine, ?_⟩⟩
    exact List.forall_mem_cons.mpr ⟨.inr (.inr haction),
      List.forall_mem_singleton.mpr (.inr hresponse.1.symm)⟩

/-- Lines that no line of a step is like are counted among the blank lines before the steps. -/
theorem countP_steps {steps : List Step} {blocks : List (List Line)} {p : Line → Bool} {b : Bool}
    (hblocks : List.Forall₂ (StepLayout o) steps blocks) (hblank : ∀ l, l.kind = .blank → p l = b)
    (hstep : ∀ l, IsStepLine l → p l = false) :
    blocks.flatten.countP p = if b then steps.length else 0 := by
  induction hblocks with
  | nil => simp
  | cons h _ ih =>
    obtain ⟨blank, rest, rfl, hkind, hrest⟩ := h.exists_eq_cons
    have hzero : rest.countP p = 0 :=
      List.countP_eq_zero.mpr fun l hl => by simp [hstep l (hrest l hl)]
    rw [List.flatten_cons, List.countP_append, List.countP_cons, hzero, ih, hblank blank hkind,
      List.length_cons]
    cases b
    · rfl
    · simp [Nat.add_comm]

theorem KeyedLines.isHeader {keys : List Key} (h : KeyedLines keys ls) :
    ∀ l ∈ ls, ∃ name value, l.kind = .header name value := by
  induction h with
  | nil => simp
  | cons hl _ ih =>
    obtain ⟨value, hl⟩ := hl
    exact List.forall_mem_cons.mpr ⟨⟨_, value, hl⟩, ih⟩

theorem KeyedLines.countP_value {keys : List Key} (h : KeyedLines keys ls) (key : Key) :
    ls.countP (fun l => (l.value? key).isSome) = keys.count key := by
  induction h with
  | nil => simp
  | @cons key' l _ _ hl _ ih =>
    obtain ⟨value, hl⟩ := hl
    rw [List.countP_cons, ih, Line.value?_of_header hl, List.count_cons]
    by_cases hkey : key' = key <;> simp [hkey]

namespace Layout

/-- Identity lines and blank lines are counted as the layout has them: one, and one for each
step. -/
theorem countP_eq {p : Line → Bool} {a b : Bool} (h : Layout o s ls)
    (hidentity : ∀ l, l.kind = .identity s.id → p l = a) (hblank : ∀ l, l.kind = .blank → p l = b)
    (hother : ∀ l, p l = true → (∃ id, l.kind = .identity id) ∨ l.kind = .blank) :
    ls.countP p = (if b then s.steps.length else 0) + if a then 1 else 0 := by
  have hno : ∀ l, (∀ id, l.kind ≠ .identity id) → l.kind ≠ .blank → p l = false :=
    fun l hid hblank => Bool.eq_false_iff.mpr fun hp =>
      (hother l hp).elim (fun ⟨value, hkind⟩ => hid value hkind) hblank
  cases h with
  | @intro identity keys headers description blocks hkind _ hheaders hdescription hblocks =>
    have hzero : (headers ++ description).countP p = 0 := by
      refine List.countP_eq_zero.mpr fun l hl => Bool.not_eq_true _ ▸ ?_
      rcases List.mem_append.mp hl with hl | hl
      · obtain ⟨name, value, hkind⟩ := hheaders.isHeader l hl
        exact hno l (by simp [hkind]) (by simp [hkind])
      · rcases Line.isDescription_iff.mp (hdescription l hl) with ⟨_, _, hkind, -⟩ | hkind <;>
          exact hno l (by simp [hkind]) (by simp [hkind])
    have hsteps := countP_steps hblocks hblank fun l hl => by
      rcases hl with ⟨_, hl⟩ | ⟨_, hl⟩ | hl <;> exact hno l (by simp [hl]) (by simp [hl])
    rw [List.countP_cons, List.countP_append, hzero, hsteps, hidentity _ hkind, Nat.zero_add]

/-- **One line is an identity line.** -/
theorem countP_identity (h : Layout o s ls) : ls.countP (fun l => l.identity?.isSome) = 1 := by
  refine h.countP_eq (a := true) (b := false) (fun l hl => by simp [Line.identity?, hl])
    (fun l hl => by simp [Line.identity?, hl]) fun l hl => .inl ?_
  cases hkind : l.kind <;> simp_all [Line.identity?]

/-- **There are as many blank lines as steps.** -/
theorem countP_blank (h : Layout o s ls) :
    ls.countP (fun l => l.kind = .blank) = s.steps.length :=
  h.countP_eq (a := false) (b := true) (fun l hl => by simp [hl]) (fun l hl => by simp [hl])
    fun l hl => .inr (of_decide_eq_true hl)

/-- **A key of the header** is that of one line at most. -/
theorem countP_value_le (h : Layout o s ls) (hkey : key ≠ .redirect) :
    ls.countP (fun l => (l.value? key).isSome) ≤ 1 := by
  cases h with
  | @intro identity keys headers description blocks hidentity hkeys hheaders hdescription hblocks =>
    have hzero : description.countP (fun l => (l.value? key).isSome) = 0 := by
      refine List.countP_eq_zero.mpr fun l hl => ?_
      rcases Line.isDescription_iff.mp (hdescription l hl) with ⟨_, _, hkind, hname⟩ | hkind
      · simp [Line.value?_of_unknown hkind hname]
      · simp [Line.value?, hkind]
    have hsteps := countP_steps (p := fun l => (l.value? key).isSome) (b := false) hblocks
      (fun l hl => by simp [Line.value?, hl]) fun l hl => by
        rcases hl with ⟨_, hl⟩ | ⟨_, hl⟩ | hl
        · simp [Line.value?_of_header hl, Ne.symm hkey]
        · simp [Line.value?, hl]
        · simp [Line.value?, hl]
    have honce : headerKeys.count key ≤ 1 := by cases key <;> decide
    have hcount := (hkeys.count_le key).trans honce
    rw [List.countP_cons, List.countP_append, List.countP_append, hzero, hsteps,
      hheaders.countP_value]
    simpa [Line.value?, hidentity] using hcount

end Layout

end Layouts

/-! ## The header lines of a script -/

/-- **Lines with labels of these keys**, of some of them and in this order. -/
def Labels (keys : List Key) (ls : List String) : Prop :=
  ∃ ks : List Key, ks.Sublist keys ∧
    List.Forall₂ (fun key l => ∃ rest, l = "# " ++ key.name ++ ":" ++ rest) ks ls

namespace Labels

variable {keys keys' : List Key} {key : Key} {ls ls' : List String} {label value : String}

theorem append (h : Labels keys ls) (h' : Labels keys' ls') :
    Labels (keys ++ keys') (ls ++ ls') := by
  obtain ⟨ks, hks, hls⟩ := h
  obtain ⟨ks', hks', hls'⟩ := h'
  exact ⟨ks ++ ks', hks.append hks', List.rel_append hls hls'⟩

theorem none (key : Key) : Labels [key] [] := ⟨[], List.nil_sublist _, .nil⟩

theorem one (hlabel : label = "# " ++ key.name ++ ":") (rest : String) :
    Labels [key] [label ++ rest] :=
  ⟨[key], List.Sublist.refl _, .cons ⟨rest, by rw [hlabel]⟩ .nil⟩

theorem spaced (hlabel : label = "# " ++ key.name ++ ":" ++ " ") (value : String) :
    Labels [key] [label ++ value] := by
  rw [hlabel, String.append_assoc]
  exact one rfl _

theorem ite {c : Prop} [Decidable c] (h : Labels [key] ls) :
    Labels [key] (if c then [] else ls) := by
  split
  · exact none key
  · exact h

theorem option {α : Type} {line : α → String} (x : Option α) (h : ∀ a, Labels [key] [line a]) :
    Labels [key] (x.map line).toList := by
  cases x with
  | none => exact none key
  | some a => exact h a

theorem bare (hlabel : label = "# " ++ key.name ++ ":") : Labels [key] [label] := by
  simpa using one hlabel ""

theorem labelled (hlabel : label = "# " ++ key.name ++ ":") (value : String) :
    Labels [key] [Script.labelled label value] := by
  rw [Script.labelled]
  split
  · exact bare hlabel
  · rw [String.append_assoc]
    exact one hlabel _

/-- **The header lines of a script** stand in the order of their keys. -/
theorem headerLines (s : Script) : Labels headerKeys s.headerLines := by
  have hfeature : Labels [.featureId] (featureLine s.feature) := by
    rcases s.feature with _ | id | _
    · exact none _
    · exact spaced (by decide) _
    · exact bare (by decide)
  have hexecute : Labels [.execute] ["# execute: " ++ "false"] := spaced (by decide) _
  exact (ite (spaced (by decide) s.title)).append (labelled (by decide) s.startUri)
    |>.append (option s.siteId fun id => spaced (by decide) _) |>.append hfeature
    |>.append (ite (spaced (by decide) _)) |>.append (ite (spaced (by decide) _))
    |>.append (ite (spaced (by decide) _))
    |>.append (option s.priority fun p => spaced (by decide) _) |>.append (ite hexecute)

end Labels

/-! ## The lines of a canonical text -/

namespace Line

/-- Texts as lines that stand behind `n` others. -/
def ofTexts (n : Nat) (ls : List String) : List Line := ls.mapIdx fun i l => lineOf (i + n + 1) l

theorem ofTexts_cons (n : Nat) (l : String) (ls : List String) :
    ofTexts n (l :: ls) = lineOf (n + 1) l :: ofTexts (n + 1) ls := by
  simp [ofTexts, List.mapIdx_cons, Nat.add_assoc, Nat.add_comm 1]

theorem ofTexts_append (n : Nat) (ls ls' : List String) :
    ofTexts n (ls ++ ls') = ofTexts n ls ++ ofTexts (n + ls.length) ls' := by
  simp [ofTexts, List.mapIdx_append, Nat.add_assoc, Nat.add_comm, Nat.add_left_comm]

theorem forall_mem_ofTexts {p : Line → Prop} {n : Nat} {ls : List String}
    (h : ∀ l ∈ ls, ∀ n, p (lineOf n l)) : ∀ l ∈ ofTexts n ls, p l := by
  intro l hl
  obtain ⟨i, hi, rfl⟩ := List.mem_mapIdx.mp hl
  exact h _ (List.getElem_mem hi) _

/-- **The lines of a text that was joined** from trimmed lines are these. -/
theorem written_join {ls : List String} (hls : ∀ l ∈ ls, OneLine l) :
    written (String.join (ls.map (· ++ "\n"))) = ofTexts 0 ls := by
  rw [written, lines_join fun l hl => (hls l hl).noFeed, ofTexts]
  refine List.ext_getElem (by simp) fun i _ hi => ?_
  rw [List.length_mapIdx] at hi
  simp [ofChars_toList (hls _ (List.getElem_mem hi))]

end Line

section Canonical

variable {o : Options} {s : Script} {step : Step} {keys : List Key} {ls : List String}

theorem keyedLines_ofTexts
    (h : List.Forall₂ (fun key l => ∃ rest, l = "# " ++ Key.name key ++ ":" ++ rest) keys ls)
    (n : Nat) : KeyedLines keys (Line.ofTexts n ls) := by
  induction h generalizing n with
  | nil => exact .nil
  | cons hl _ ih =>
    obtain ⟨rest, rfl⟩ := hl
    rw [Line.ofTexts_cons]
    exact .cons ⟨_, kind_header_append _ _ rest⟩ (ih _)

theorem redirectLayout_ofTexts (o : Options) (flag : Bool) (n : Nat) :
    RedirectLayout o flag (Line.ofTexts n (redirectLine o flag)) := by
  rw [RedirectLayout, redirectLine]
  split
  · rfl
  · have hvalue : Trimmed (textOfBool flag) ∧ textOfBool flag ≠ "" := by
      cases flag <;> exact ⟨by decide, by decide⟩
    have hlabel : "# redirect: " ++ textOfBool flag =
        labelled ("# " ++ Key.redirect.name ++ ":") (textOfBool flag) := by
      rw [labelled_of_ne_empty _ hvalue.2]
      rfl
    rw [hlabel, Line.ofTexts_cons]
    exact ⟨_, rfl, kind_header _ .redirect hvalue.1⟩

/-- **The lines of a step** are laid out as they have to be, when a text can say the step. -/
theorem stepLayout_ofTexts (hstep : step.WellFormed) (n : Nat) :
    StepLayout o step (Line.ofTexts n ("" :: stepLines o step)) := by
  cases step with
  | embed e =>
    rw [Line.ofTexts_cons, stepLines, Line.ofTexts_append]
    exact .embed rfl (redirectLayout_ofTexts o e.redirect _) (kind_embed _ hstep.trimmed)
  | instruction i =>
    have haction := isAction_onOneLine hstep.1
    have hresponse := isResponse_onOneLine hstep.2
    rw [Line.ofTexts_cons, stepLines, Line.ofTexts_append]
    exact .instruction rfl (redirectLayout_ofTexts o i.redirect _) (kind_action _ haction)
      ⟨kind_response _ hresponse, hresponse.question⟩ ⟨rfl, rfl⟩

theorem exists_blocks {steps : List Step} (hsteps : ∀ step ∈ steps, step.WellFormed) (n : Nat) :
    ∃ blocks, Line.ofTexts n (steps.flatMap fun step => "" :: stepLines o step) = blocks.flatten ∧
      List.Forall₂ (StepLayout o) steps blocks := by
  induction steps generalizing n with
  | nil => exact ⟨[], rfl, .nil⟩
  | cons step steps ih =>
    obtain ⟨hstep, hsteps⟩ := List.forall_mem_cons.mp hsteps
    obtain ⟨blocks, hblocks, hlayout⟩ := ih hsteps (n + ("" :: stepLines o step).length)
    refine ⟨_ :: blocks, ?_, .cons (stepLayout_ofTexts hstep n) hlayout⟩
    rw [List.flatMap_cons, Line.ofTexts_append, hblocks, List.flatten_cons]

theorem oneLine_canonicalLines (h : s.WellFormed o) : ∀ l ∈ canonicalLines o s, OneLine l := by
  obtain ⟨d, htakes, -⟩ := takes_verbatimLines h.onOneLine
  rw [canonicalLines_eq]
  exact htakes.oneLine

/-- **The lines of the canonical text** of a script that a text can say are laid out as they have to
be. -/
theorem layout_canonicalLines (h : s.WellFormed o) :
    Layout o s (Line.ofTexts 0 (canonicalLines o s)) := by
  obtain ⟨ls, hls, hlines⟩ := h.description
  obtain ⟨keys, hkeys, hheaders⟩ := Labels.headerLines s
  have hidentity : "#! " ++ s.id = labelled "#!" s.id := by
    rw [labelled_of_ne_empty _ h.id_ne_empty]
    rfl
  have hdescription : ∀ n, ∀ l ∈ Line.ofTexts n s.descriptionLines, l.isDescription = true := by
    intro n
    rw [descriptionLines, hls, linesOf_join fun l hl => (hlines l hl).noFeed]
    refine Line.forall_mem_ofTexts (List.forall_mem_map.mpr fun l hl n => ?_)
    exact Line.isDescription_iff.mpr (kind_description n (hlines l hl))
  rw [canonicalLines, hidentity, List.append_assoc, List.append_assoc, List.singleton_append,
    Line.ofTexts_cons, Line.ofTexts_append, Line.ofTexts_append, ← List.append_assoc]
  obtain ⟨blocks, hblocks, hsteps⟩ := exists_blocks (o := o) h.steps _
  rw [hblocks]
  exact .intro (kind_identity _ h.id.trimmed) hkeys (keyedLines_ofTexts hheaders _)
    (hdescription _) hsteps

end Canonical

/-- **The canonical text of a script that was read** is laid out as it has to be: it ends with a
line feed; no line begins or ends with a blank; the first line and no other is an identity line; the
header lines, each key but redirect on one line at most, stand before the description, and that
before the steps; and there are as many blank lines as steps, each directly before its own. -/
theorem Script.layout_canonical {o : Options} {text : String} {s : Script}
    (h : Script.read o text = .ok s) :
    Layout o s (Line.written (s.canonical o)) ∧
      (s.canonical o).toList.getLast? = some '\n' ∧
      (∀ cs ∈ lines (s.canonical o).toList, TrimmedChars cs) ∧
      (Line.written (s.canonical o)).countP (fun l => l.identity?.isSome) = 1 ∧
      (∀ key, key ≠ .redirect →
        (Line.written (s.canonical o)).countP (fun l => (l.value? key).isSome) ≤ 1) ∧
      (Line.written (s.canonical o)).countP (fun l => l.kind = .blank) = s.steps.length := by
  have hwell := wellFormed_of_read h
  have hlines := oneLine_canonicalLines hwell
  have hlayout : Layout o s (Line.written (s.canonical o)) := by
    rw [canonical, Line.written_join hlines]
    exact layout_canonicalLines hwell
  refine ⟨hlayout, ?_, ?_, hlayout.countP_identity, fun key hkey => hlayout.countP_value_le hkey,
    hlayout.countP_blank⟩
  · exact getLast?_join (by simp [canonicalLines])
  · rw [canonical, lines_join fun l hl => (hlines l hl).noFeed]
    exact List.forall_mem_map.mpr fun l hl => (hlines l hl).trimmed

/-- The lines of a text in no order, of which some end in blanks and one holds a carriage return. -/
theorem Script.layout_canonical_disordered :
    let text := "A\rB \nC?\n# tags: a ,b\n\n# :\n#! x\n# redirect: f\n-\r\n#"
    let s : Script := {
      id := "x", tags := ["a", "b"], description := ":\n\n",
      steps := [.instruction ⟨"A\rB", "C?", true⟩, .embed ⟨"", false⟩] }
    Script.read {} text = .ok s ∧
      s.canonical {} = "#! x\n# start_uri: /\n# tags: a, b\n# :\n#\n\nA B\nC?\n" ++
        "\n# redirect: false\n-\n" ∧
      Layout {} s (Line.written (s.canonical {})) ∧
      (Line.written (s.canonical {})).countP (fun l => l.kind = .blank) = 2 := by
  intro text s
  have hread : Script.read {} text = .ok s := by decide
  obtain ⟨hlayout, -, -, -, -, hblank⟩ := Script.layout_canonical hread
  exact ⟨hread, by decide, hlayout, hblank⟩

end ScriptSuite
