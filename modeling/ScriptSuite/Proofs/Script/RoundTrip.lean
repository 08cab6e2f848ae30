import ScriptSuite.Proofs.Script.Labels

/-!
# Proofs/Script/RoundTrip — what reading makes of the canonical text

The canonical text of a script is the **verbatim** text of the script with the texts of its steps
put on one line (`canonical_eq`).  Reading the verbatim text of a well-formed script gives the
script back (`read_verbatim`), so reading the canonical text gives it back with its steps on one
line each (`read_canonical`).
-/

namespace ScriptSuite

open Header Script

/-! ## Lines of text -/

/-- **Reading some lines** turns one draft into another, wherever they stand; and each can stand on
a line of its own. -/
structure Draft.Takes (o : Options) (ls : List String) (d d' : Draft) : Prop where
  oneLine : ∀ l ∈ ls, OneLine l
  readFrom_eq : ∀ (n : Nat) (rest : List (List Char)),
    d.readFrom o n (ls.map String.toList ++ rest) = d'.readFrom o (n + ls.length) rest

namespace Draft.Takes

variable {o : Options} {d d' e : Draft} {ls ms : List String}

theorem nil : Takes o [] d d where
  oneLine := by simp
  readFrom_eq := fun _ _ => rfl

theorem append (h : Takes o ls d d') (h' : Takes o ms d' e) : Takes o (ls ++ ms) d e where
  oneLine := fun l hl => (List.mem_append.mp hl).elim (h.oneLine l) (h'.oneLine l)
  readFrom_eq := by
    intro n rest
    rw [List.map_append, List.append_assoc, h.readFrom_eq n, h'.readFrom_eq (n + ls.length),
      List.length_append, Nat.add_assoc]

theorem single {l : String} (hl : OneLine l) (h : ∀ n, Reads o d (lineOf n l) d') :
    Takes o [l] d d' where
  oneLine := fun l' hl' => List.mem_singleton.mp hl' ▸ hl
  readFrom_eq := by
    intro n rest
    rw [List.map_cons, List.map_nil, List.singleton_append, readFrom, ofChars_toList hl,
      step_of_reads (h (n + 1))]
    rfl

/-- A line that is left out when it would set nothing. -/
theorem ite_nil {c : Prop} [Decidable c] (hc : c → d = d') (h : ¬ c → Takes o ls d d') :
    Takes o (if c then [] else ls) d d' := by
  split
  · rename_i hp
    exact hc hp ▸ nil
  · rename_i hp
    exact h hp

end Draft.Takes

/-! ## Header lines -/

section Headers

variable {o : Options} {d : Draft}

theorem oneLine_label (key : Key) : OneLine ("# " ++ key.name ++ ":") := by
  cases key <;> decide

theorem oneLine_header (key : Key) {value : String} (h : OneLine value) :
    OneLine (labelled ("# " ++ key.name ++ ":") value) :=
  oneLine_labelled (oneLine_label key) (by cases key <;> decide) h.noFeed h.trimmed.2

theorem takes_value {key : Key} {label value : String} {entry : Entry}
    (hlabel : label = "# " ++ key.name ++ ":") (hvalue : OneLine value)
    (hmeans : Means key value entry) :
    Draft.Takes o [labelled label value] d (d.put entry) := by
  rw [hlabel]
  exact .single (oneLine_header key hvalue) fun _ => reads_value hvalue hmeans

/-- A value that is there, with a space before it. -/
theorem takes_value_of_ne_empty {key : Key} {label value : String} {entry : Entry}
    (hlabel : label = "# " ++ key.name ++ ":" ++ " ") (hvalue : OneLine value) (hne : value ≠ "")
    (hmeans : Means key value entry) : Draft.Takes o [label ++ value] d (d.put entry) := by
  rw [hlabel, ← labelled_of_ne_empty _ hne]
  exact takes_value rfl hvalue hmeans

/-- A draft outside of any instruction, of a script with an identity line. -/
def headed (s : Script) : Draft := { script := s, named := true }

variable {a s : Script}

theorem takes_title (h : OneLine s.title) (ha : a.title = "") :
    Draft.Takes o (if s.title.isEmpty then [] else ["# title: " ++ s.title])
      (headed a) (headed { a with title := s.title }) := by
  refine .ite_nil (fun hempty => ?_) fun hne => ?_
  · rw [String.isEmpty_iff.mp hempty, ← ha]
  · exact takes_value_of_ne_empty (by decide) h (by simpa using hne) (.title s.title)

theorem takes_startUri (h : OneLine s.startUri) :
    Draft.Takes o [labelled "# start_uri:" s.startUri]
      (headed a) (headed { a with startUri := s.startUri }) :=
  takes_value (by decide) h (.startUri s.startUri)

theorem takes_siteId (ha : a.siteId = none) :
    Draft.Takes o (s.siteId.map fun id => "# site_id: " ++ numberText id).toList
      (headed a) (headed { a with siteId := s.siteId }) := by
  cases s.siteId with
  | none =>
    have hsame : { a with siteId := none } = a := by rw [← ha]
    exact hsame ▸ .nil
  | some id =>
    have hid := numeral_toString id.toInt
    exact takes_value_of_ne_empty (by decide) hid.oneLine hid.ne_empty (.siteId hid)

theorem takes_feature (ha : a.feature = none) :
    Draft.Takes o (featureLine s.feature) (headed a) (headed { a with feature := s.feature }) := by
  rcases s.feature with _ | id | _
  · have hsame : { a with feature := none } = a := by rw [← ha]
    exact hsame ▸ .nil
  · have hid := numeral_toString id.toInt
    exact takes_value_of_ne_empty (by decide) hid.oneLine hid.ne_empty (.assigned hid)
  · have hline : labelled "# feature_id:" "" = "# feature_id:" := by simp [labelled]
    rw [featureLine, ← hline]
    exact takes_value (by decide) oneLine_empty .cleared

theorem intercalate_ne_empty {items : List String} (h : ∀ item ∈ items, ListItem item)
    (hne : items ≠ []) : String.intercalate ", " items ≠ "" := by
  intro hempty
  have hitems := listItems_intercalate h
  rw [hempty] at hitems
  exact hne hitems.symm

theorem oneLine_intercalate {items : List String} (h : ∀ item ∈ items, ListItem item) :
    OneLine (String.intercalate ", " items) := by
  induction items with
  | nil => exact oneLine_empty
  | cons item items ih =>
    have hitem := h item (List.mem_cons_self ..)
    have hitems : ∀ item' ∈ items, ListItem item' :=
      fun item' hitem' => h item' (List.mem_cons_of_mem item hitem')
    by_cases hnil : items = []
    · rw [hnil, String.intercalate_singleton]
      exact hitem.oneLine
    · rw [String.intercalate_cons_of_ne_nil hnil]
      exact oneLine_append hitem.oneLine hitem.ne_empty (by decide)
        (intercalate_ne_empty hitems hnil) (ih hitems).noFeed (ih hitems).trimmed.2

theorem takes_list {key : Key} {label : String} {items : List String} {entry : Entry}
    (hlabel : label ++ " " = "# " ++ key.name ++ ":" ++ " ")
    (hitems : ∀ item ∈ items, ListItem item)
    (hmeans : Means key (String.intercalate ", " items) entry)
    (hempty : items = [] → (headed a).put entry = headed a) :
    Draft.Takes o (listLine label items) (headed a) ((headed a).put entry) := by
  refine .ite_nil (fun hnil => (hempty (List.isEmpty_iff.mp hnil)).symm) fun hnil => ?_
  exact takes_value_of_ne_empty hlabel (oneLine_intercalate hitems)
    (intercalate_ne_empty hitems (by simpa using hnil)) hmeans

theorem takes_tags (h : ∀ item ∈ s.tags, ListItem item) (ha : a.tags = []) :
    Draft.Takes o (listLine "# tags:" s.tags) (headed a) (headed { a with tags := s.tags }) := by
  have hmeans := Means.tags (String.intercalate ", " s.tags)
  rw [listItems_intercalate h] at hmeans
  exact takes_list (by decide) h hmeans fun hnil => by rw [hnil, ← ha]; rfl

theorem takes_browsers (h : ∀ item ∈ s.browsers, ListItem item) (ha : a.browsers = []) :
    Draft.Takes o (listLine "# browsers:" s.browsers)
      (headed a) (headed { a with browsers := s.browsers }) := by
  have hmeans := Means.browsers (String.intercalate ", " s.browsers)
  rw [listItems_intercalate h] at hmeans
  exact takes_list (by decide) h hmeans fun hnil => by rw [hnil, ← ha]; rfl

theorem takes_state (ha : a.state = .enabled) :
    Draft.Takes o (if s.state = .enabled then [] else ["# state: " ++ s.state.name])
      (headed a) (headed { a with state := s.state }) := by
  refine .ite_nil (fun hstate => by rw [hstate, ← ha]) fun _ => ?_
  have hname : OneLine s.state.name ∧ s.state.name ≠ "" := by
    cases s.state <;> exact ⟨by decide, by decide⟩
  exact takes_value_of_ne_empty (by decide) hname.1 hname.2 (.state s.state)

theorem takes_priority (ha : a.priority = none) :
    Draft.Takes o (s.priority.map fun p => "# priority: " ++ p.name).toList
      (headed a) (headed { a with priority := s.priority }) := by
  cases s.priority with
  | none =>
    have hsame : { a with priority := none } = a := by rw [← ha]
    exact hsame ▸ .nil
  | some p =>
    have hname : OneLine p.name ∧ p.name ∈ p.spellings := by
      cases p <;> exact ⟨by decide, by decide⟩
    exact takes_value_of_ne_empty (by decide) hname.1 (Priority.ne_empty_of_mem hname.2)
      (.priority hname.2)

theorem takes_execute (ha : a.execute = true) :
    Draft.Takes o (if s.execute then [] else ["# execute: false"])
      (headed a) (headed { a with execute := s.execute }) := by
  refine .ite_nil (fun hexecute => by rw [hexecute, ← ha]) fun hexecute => ?_
  have hline : "# execute: false" = "# execute: " ++ "false" := by decide
  have hfalse : Means .execute "false" (.execute false) := .execute (by decide)
  rw [Bool.eq_false_iff.mpr hexecute, hline]
  exact takes_value_of_ne_empty (by decide) (by decide) (by decide) hfalse

/-- **The header lines** set every field of the header, in a script that has only its id. -/
theorem takes_headerLines (h : s.Sayable) : Draft.Takes o s.headerLines
    (headed { id := s.id }) (headed { s with description := "", steps := [] }) := by
  have hlocation := h.location
  obtain ⟨id, title, startUri, siteId, feature, state, execute, priority, tags, browsers,
    description, steps, location⟩ := s
  subst hlocation
  exact (takes_title (a := { id := id }) h.title rfl).append (takes_startUri h.startUri)
    |>.append (takes_siteId rfl) |>.append (takes_feature rfl) |>.append (takes_tags h.tags rfl)
    |>.append (takes_browsers h.browsers rfl) |>.append (takes_state rfl)
    |>.append (takes_priority rfl) |>.append (takes_execute rfl)

/-- **The lines of the description** are added to it. -/
theorem takes_descriptionLines {ls : List String} (h : ∀ l ∈ ls, DescriptionLine l) :
    Draft.Takes o (ls.map fun l => labelled "#" l) (headed a)
      (headed { a with description := a.description ++ String.join (ls.map (· ++ "\n")) }) := by
  induction ls generalizing a with
  | nil => simpa using Draft.Takes.nil
  | cons l ls ih =>
    have hl := h l (List.mem_cons_self ..)
    have hline : OneLine (labelled "#" l) :=
      oneLine_labelled (by decide) (by decide) hl.noFeed hl.noBlank
    have hfirst : Draft.Takes o [labelled "#" l] (headed a)
        (headed { a with description := a.description ++ l ++ "\n" }) :=
      .single hline fun _ => reads_description hl
    have hrest := hfirst.append (ih fun l' hl' => h l' (List.mem_cons_of_mem l hl'))
    simpa [String.append_assoc] using hrest

end Headers

/-! ## Steps -/

section Steps

variable {o : Options} {d e : Draft}

/-- **A draft settles** when a blank line or the end of the text leaves it outside of any
instruction, with no redirect flag set. -/
structure Draft.Settles (o : Options) (d e : Draft) : Prop where
  reads : ∀ l : Line, l.kind = .blank ∨ l.kind = .endOfText → Draft.Reads o d l e
  block : e.block = .empty
  redirect : e.redirect = none

theorem settles_headed (s : Script) : (headed s).Settles o (headed s) where
  reads := fun _ hl => .skip hl rfl
  block := rfl
  redirect := rfl

/-- The flag that a redirect line sets, if there is one. -/
def redirectFlag (o : Options) (flag : Bool) : Option Bool :=
  if flag = o.redirectDefault then none else some flag

theorem getD_redirectFlag (o : Options) (flag : Bool) :
    (redirectFlag o flag).getD o.redirectDefault = flag := by
  rw [redirectFlag]
  split
  · rename_i h
    exact h.symm
  · rfl

/-- A step takes the flag that its redirect line has set. -/
theorem emit_redirectFlag (he : e.redirect = none) (flag : Bool) (step : Bool → Step) :
    ({ e with redirect := redirectFlag o flag } : Draft).emit o step =
      { e with steps := step flag :: e.steps } := by
  rw [Draft.emit, getD_redirectFlag, ← he]

theorem close_redirectFlag (he : e.redirect = none) (hblock : e.block = .empty) (i : Instruction) :
    ({ e with block := .complete i.action i.response, redirect := redirectFlag o i.redirect } :
      Draft).close o i.action i.response = { e with steps := .instruction i :: e.steps } := by
  rw [Draft.close, Draft.emit, getD_redirectFlag, ← he, ← hblock]

theorem takes_redirectLine {flag : Bool} (he : e.redirect = none) :
    Draft.Takes o (redirectLine o flag) e { e with redirect := redirectFlag o flag } := by
  rw [redirectLine, redirectFlag]
  split
  · exact he ▸ .nil
  · have hvalue : OneLine (textOfBool flag) ∧ textOfBool flag ≠ "" ∧
        textOfBool flag ∈ spellings flag := by
      cases flag <;> exact ⟨by decide, by decide, by decide⟩
    exact takes_value_of_ne_empty (by decide) hvalue.1 hvalue.2.1 (.redirect hvalue.2.2)

/-- The lines of a step with its texts as they are. -/
def verbatimStepLines (o : Options) (step : Step) : List String :=
  redirectLine o step.redirect ++
    match step with
    | .instruction i => [i.action, i.response]
    | .embed e => [labelled "-" e.target]

theorem takes_instruction {action response : String} (haction : IsAction action)
    (hresponse : IsResponse response) (hd : d.block = .empty) :
    Draft.Takes o [action, response] d { d with block := .complete action response } where
  oneLine := by simp [haction.oneLine, hresponse.oneLine]
  readFrom_eq := by
    intro n rest
    rw [List.map_cons, List.map_cons, List.map_nil, List.cons_append, List.singleton_append,
      Draft.readFrom, ofChars_toList haction.oneLine, Draft.step_of_reads (reads_action haction hd)]
    dsimp only
    rw [Draft.readFrom, ofChars_toList hresponse.oneLine,
      Draft.step_of_reads (reads_response hresponse rfl)]
    rfl

/-- **The lines of a step** settle the draft before them, and add the step once they are settled
themselves. -/
theorem takes_stepLines {step : Step} (hsettles : d.Settles o e) (hstep : step.WellFormed) :
    ∃ d', Draft.Takes o ("" :: verbatimStepLines o step) d d' ∧
      d'.Settles o { e with steps := step :: e.steps } := by
  have hblank : Draft.Takes o [""] d e := .single oneLine_empty fun _ => hsettles.reads _ (.inl rfl)
  cases step with
  | instruction i =>
    have hlines := takes_instruction (o := o)
      (d := { e with redirect := redirectFlag o i.redirect }) hstep.1 hstep.2 hsettles.block
    refine ⟨_, (hblank.append (takes_redirectLine hsettles.redirect)).append hlines,
      ⟨fun l hl => ?_, hsettles.block, hsettles.redirect⟩⟩
    exact close_redirectFlag (o := o) hsettles.redirect hsettles.block i ▸ .close hl rfl
  | embed target =>
    have hline : Draft.Takes o [labelled "-" target.target]
        { e with redirect := redirectFlag o target.redirect }
        { e with steps := .embed target :: e.steps } := by
      rw [← emit_redirectFlag hsettles.redirect target.redirect
        fun flag => .embed ⟨target.target, flag⟩]
      exact .single (oneLine_labelled (by decide) (by decide) hstep.noFeed hstep.trimmed.2)
        fun _ => reads_embed hstep hsettles.block
    exact ⟨_, (hblank.append (takes_redirectLine hsettles.redirect)).append hline,
      ⟨fun l hl => .skip hl hsettles.block, hsettles.block, hsettles.redirect⟩⟩

theorem takes_steps {steps : List Step} (hsettles : d.Settles o e)
    (hsteps : ∀ step ∈ steps, step.WellFormed) :
    ∃ d', Draft.Takes o (steps.flatMap fun step => "" :: verbatimStepLines o step) d d' ∧
      d'.Settles o { e with steps := steps.reverse ++ e.steps } := by
  induction steps generalizing d e with
  | nil => exact ⟨d, .nil, hsettles⟩
  | cons step steps ih =>
    obtain ⟨d₁, hfirst, hsettles₁⟩ := takes_stepLines hsettles (hsteps step (List.mem_cons_self ..))
    obtain ⟨d', hrest, hsettles'⟩ :=
      ih hsettles₁ fun step' h => hsteps step' (List.mem_cons_of_mem _ h)
    refine ⟨d', hfirst.append hrest, ?_⟩
    simpa using hsettles'

end Steps

/-! ## The verbatim text -/

section Verbatim

variable {o : Options} {s : Script}

/-- The lines of a script with the texts of its steps as they are. -/
def verbatimLines (o : Options) (s : Script) : List String :=
  ["#! " ++ s.id] ++ s.headerLines ++ s.descriptionLines ++
    s.steps.flatMap fun step => "" :: verbatimStepLines o step

/-- **The verbatim text** of a script. -/
def Script.verbatim (o : Options) (s : Script) : String :=
  String.join ((verbatimLines o s).map (· ++ "\n"))

/-- **The verbatim lines**, read from the beginning, settle to the script. -/
theorem takes_verbatimLines (h : s.WellFormed o) :
    ∃ d, Draft.Takes o (verbatimLines o s) {} d ∧
      d.Settles o { headed { s with steps := [] } with steps := s.steps.reverse } := by
  obtain ⟨ls, hls, hlines⟩ := h.description
  have hidentity : Draft.Takes o ["#! " ++ s.id] {} (headed { id := s.id }) := by
    have hlabel : "#! " ++ s.id = labelled "#!" s.id := by
      rw [labelled_of_ne_empty _ h.id_ne_empty]
      rfl
    rw [hlabel]
    exact .single (oneLine_labelled (by decide) (by decide) h.id.noFeed h.id.trimmed.2)
      fun _ => reads_identity h.id h.id_ne_empty rfl
  have hdescription : Draft.Takes o s.descriptionLines
      (headed { s with description := "", steps := [] }) (headed { s with steps := [] }) := by
    have htakes := takes_descriptionLines (o := o)
      (a := { s with description := "", steps := [] }) hlines
    rw [String.empty_append, ← hls] at htakes
    have hdescription : s.descriptionLines = ls.map fun l => labelled "#" l := by
      rw [descriptionLines, hls, linesOf_join fun l hl => (hlines l hl).noFeed]
    exact hdescription ▸ htakes
  obtain ⟨d, hsteps, hsettles⟩ := takes_steps (settles_headed { s with steps := [] }) h.steps
  have hall :=
    ((hidentity.append (takes_headerLines h.toSayable)).append hdescription).append hsteps
  refine ⟨d, hall, ?_⟩
  simpa [headed] using hsettles

/-- **Reading the verbatim text** of a well-formed script gives the script. -/
theorem read_verbatim (h : s.WellFormed o) : Script.read o (s.verbatim o) = .ok s := by
  obtain ⟨d, htakes, hsettles⟩ := takes_verbatimLines h
  have hlines : lines (s.verbatim o).toList = (verbatimLines o s).map String.toList :=
    lines_join fun l hl => (htakes.oneLine l hl).noFeed
  have hend : d.step o (Line.final (0 + (verbatimLines o s).length)) = .ok _ :=
    Draft.step_of_reads (hsettles.reads _ (.inr rfl))
  have hfrom := htakes.readFrom_eq 0 []
  rw [List.append_nil, ← hlines, Draft.readFrom, hend] at hfrom
  rw [Script.read, hfrom]
  refine Draft.finish_eq_ok_iff.mpr ⟨rfl, h.title_ne_empty, ?_⟩
  simp [headed]

end Verbatim

/-! ## Texts of steps on one line -/

/-- A step whose texts are on one line. -/
def Step.onOneLine : Step → Step
  | .instruction i =>
    .instruction ⟨Script.onOneLine i.action, Script.onOneLine i.response, i.redirect⟩
  | .embed e => .embed e

section OnOneLine

variable {s : String}

/-- A line feed or a carriage return gives way to a space, and each of them is blank. -/
theorem isBlank_ite (c : Char) :
    isBlank (if c = '\n' ∨ c = '\r' then ' ' else c) = isBlank c := by
  split
  · rename_i h
    rcases h with rfl | rfl <;> decide
  · rfl

theorem oneLine_onOneLine (h : OneLine s) : OneLine (Script.onOneLine s) := by
  refine ⟨⟨?_, ?_⟩, ?_⟩
  · intro c hc
    rw [Script.onOneLine, String.toList_ofList, List.head?_map] at hc
    obtain ⟨c', hc', rfl⟩ := Option.map_eq_some_iff.mp hc
    rw [isBlank_ite]
    exact h.trimmed.1 c' hc'
  · intro c hc
    rw [Script.onOneLine, String.toList_ofList, List.getLast?_map] at hc
    obtain ⟨c', hc', rfl⟩ := Option.map_eq_some_iff.mp hc
    rw [isBlank_ite]
    exact h.trimmed.2 c' hc'
  · rw [Script.onOneLine, String.toList_ofList]
    intro hfeed
    obtain ⟨c, -, hc⟩ := List.mem_map.mp hfeed
    split at hc
    · exact absurd hc (by decide)
    · rename_i hne
      exact hne (.inl hc)

/-- A character that is no line end is kept in its place. -/
theorem head?_onOneLine {c : Char} (hc : c ≠ ' ') :
    (Script.onOneLine s).toList.head? = some c → s.toList.head? = some c := by
  rw [Script.onOneLine, String.toList_ofList, List.head?_map, Option.map_eq_some_iff]
  rintro ⟨c', hc', h⟩
  split at h
  · exact absurd h.symm hc
  · exact h ▸ hc'

theorem isAction_onOneLine (h : IsAction s) : IsAction (Script.onOneLine s) where
  oneLine := oneLine_onOneLine h.oneLine
  ne_empty := by
    intro hempty
    rw [Script.onOneLine, ← String.toList_inj, String.toList_ofList] at hempty
    exact h.ne_empty (String.toList_inj.mp (List.map_eq_nil_iff.mp hempty))
  noHash := fun hhead => h.noHash (head?_onOneLine (by decide) hhead)
  noDash := fun hhead => h.noDash (head?_onOneLine (by decide) hhead)

theorem isResponse_onOneLine (h : IsResponse s) : IsResponse (Script.onOneLine s) where
  oneLine := oneLine_onOneLine h.oneLine
  noHash := fun hhead => h.noHash (head?_onOneLine (by decide) hhead)
  question := by
    rw [Script.onOneLine, String.toList_ofList]
    exact List.mem_map.mpr ⟨'?', h.question, by decide⟩

/-- **A text is left alone** exactly when it has no line end. -/
theorem onOneLine_eq_self_iff :
    Script.onOneLine s = s ↔ '\n' ∉ s.toList ∧ '\r' ∉ s.toList := by
  have hchar : ∀ c : Char,
      (if c = '\n' ∨ c = '\r' then ' ' else c) = c ↔ ¬ (c = '\n' ∨ c = '\r') := by
    intro c
    split
    · rename_i h
      rcases h with rfl | rfl <;> decide
    · rename_i h
      simp [h]
  rw [Script.onOneLine, ← String.toList_inj, String.toList_ofList]
  conv_lhs => rhs; rw [← List.map_id s.toList]
  rw [List.map_inj_left]
  simp only [id_eq, hchar, not_or]
  constructor
  · intro h
    exact ⟨fun hn => (h _ hn).1 rfl, fun hr => (h _ hr).2 rfl⟩
  · rintro ⟨hn, hr⟩ c hc
    exact ⟨fun h => hn (h ▸ hc), fun h => hr (h ▸ hc)⟩

end OnOneLine

/-! ## The canonical text -/

section Canonical

variable {o : Options} {s : Script}

theorem Step.WellFormed.onOneLine {step : Step} (h : step.WellFormed) :
    step.onOneLine.WellFormed := by
  cases step with
  | instruction i => exact ⟨isAction_onOneLine h.1, isResponse_onOneLine h.2⟩
  | embed e => exact h

theorem Script.WellFormed.onOneLine (h : s.WellFormed o) :
    ({ s with steps := s.steps.map Step.onOneLine } : Script).WellFormed o :=
  { h with steps := List.forall_mem_map.mpr fun step hstep => (h.steps step hstep).onOneLine }

theorem canonicalLines_eq (s : Script) : canonicalLines o s =
    verbatimLines o { s with steps := s.steps.map Step.onOneLine } := by
  have hlines : ∀ step, stepLines o step = verbatimStepLines o step.onOneLine := by
    rintro (i | e) <;> rfl
  rw [canonicalLines, verbatimLines, List.flatMap_map]
  simp only [hlines]
  rfl

/-- **The canonical text** is the verbatim text of the script with its steps on one line each. -/
theorem canonical_eq (s : Script) :
    s.canonical o = ({ s with steps := s.steps.map Step.onOneLine } : Script).verbatim o := by
  rw [canonical, canonicalLines_eq, verbatim]

/-- **Reading the canonical text** of a well-formed script gives the script, the texts of its steps
on one line each. -/
theorem read_canonical (h : s.WellFormed o) :
    Script.read o (s.canonical o) = .ok { s with steps := s.steps.map Step.onOneLine } := by
  rw [canonical_eq]
  exact read_verbatim h.onOneLine

end Canonical

end ScriptSuite
