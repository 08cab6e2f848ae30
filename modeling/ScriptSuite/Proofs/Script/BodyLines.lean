import ScriptSuite.Proofs.Script.HeaderLines

/-!
# Proofs/Script/BodyLines — what the other lines do to the steps

The lines since the last step are at one of three places of an instruction (`Draft.Pending`), and
the draft's block tells which.  Each line moves on to the next place or emits a step, as the grammar
has it (`Reads.pending`), so reading adds the steps that the lines say (`steps_of_readLines`).  The
other way round, no line that the grammar allows is refused (`exists_readLines`).
-/

namespace ScriptSuite

open Header Grammar

namespace Draft

variable {o : Script.Options} {d d' : Draft} {l : Line} {ls : List Line}

/-! ## Lines that were read -/

/-- **Where an instruction stands**, by the lines behind the step before. -/
inductive Pending : List Line → Block → Prop
  | empty {idle : List Line} (hidle : Idle idle) : Pending idle .empty
  | action {idle inner : List Line} {action : Line} (hidle : Idle idle)
      (haction : action.kind = .content) (hinner : ∀ l ∈ inner, l.isHash = true) :
      Pending (idle ++ action :: inner) (.action action.number action.text)
  | complete {idle inner after : List Line} {action response : Line} (hidle : Idle idle)
      (haction : action.kind = .content) (hinner : ∀ l ∈ inner, l.isHash = true)
      (hresponse : response.IsResponse) (hafter : ∀ l ∈ after, l.isHash = true) :
      Pending (idle ++ action :: inner ++ response :: after)
        (.complete action.text response.text)

/-- The redirect flag that is set for the next step. -/
def Slot (ls : List Line) (redirect : Option Bool) : Prop :=
  match Line.lastValue .redirect ls with
  | some value => ∃ flag, value ∈ spellings flag ∧ redirect = some flag
  | none => redirect = none

theorem Slot.flag {redirect : Option Bool} (h : Slot ls redirect) :
    Redirects o ls (redirect.getD o.redirectDefault) := by
  rw [Slot] at h
  rw [Redirects]
  split <;> rename_i hvalue <;> rw [hvalue] at h
  · obtain ⟨flag, hflag, rfl⟩ := h
    exact hflag
  · rw [h, Option.getD_none]

theorem Slot.snoc {redirect : Option Bool} (h : Slot ls redirect)
    (hl : l.value? .redirect = none) : Slot (ls ++ [l]) redirect := by
  rw [Slot, Line.lastValue_snoc, hl, Option.none_or]
  exact h

theorem idle_snoc (h : Idle ls) (hl : l.isHash = true ∨ l.kind = .blank) : Idle (ls ++ [l]) :=
  List.forall_mem_append.mpr ⟨h, List.forall_mem_singleton.mpr hl⟩

/-- Header lines leave an instruction where it stands. -/
theorem Pending.snoc {block : Block} (h : Pending ls block) (hl : l.isHash = true) :
    Pending (ls ++ [l]) block := by
  have hsnoc : ∀ hashes : List Line, (∀ l' ∈ hashes, l'.isHash = true) →
      ∀ l' ∈ hashes ++ [l], l'.isHash = true := fun _ hhashes =>
    List.forall_mem_append.mpr ⟨hhashes, List.forall_mem_singleton.mpr hl⟩
  cases h with
  | empty hidle => exact .empty (idle_snoc hidle (.inl hl))
  | action hidle haction hinner =>
    have h := Pending.action hidle haction (hsnoc _ hinner)
    rwa [← List.cons_append, ← List.append_assoc] at h
  | complete hidle haction hinner hresponse hafter =>
    have h := Pending.complete hidle haction hinner hresponse (hsnoc _ hafter)
    rwa [← List.cons_append, ← List.append_assoc] at h

/-- A complete instruction is said by its lines. -/
theorem Pending.said {action response : String} {redirect : Option Bool}
    (h : Pending ls (.complete action response)) (hslot : Slot ls redirect) :
    Says o ls ⟨action, response, redirect.getD o.redirectDefault⟩ := by
  cases h with
  | complete hidle haction hinner hresponse hafter =>
    exact .intro hidle haction hinner hresponse hafter hslot.flag

theorem Slot.reads_value (h : Slot ls d.redirect) {key : Key} {value : String} {entry : Entry}
    (hl : l.kind = .header key.name value) (hmeans : Means key value entry) :
    Slot (ls ++ [l]) (d.put entry).redirect := by
  rw [Slot, Line.lastValue_snoc, Line.value?_of_header hl]
  cases hmeans with
  | redirect hflag => exact ⟨_, hflag, rfl⟩
  | _ => exact h

/-- **A line that is read** joins those before it, or emits a step that they say. -/
theorem Reads.pending {seg : List Line} (hread : Reads o d l d') (hend : l.kind ≠ .endOfText)
    (hpending : Pending seg d.block) (hslot : Slot seg d.redirect) :
    (d'.steps = d.steps ∧ Pending (seg ++ [l]) d'.block ∧ Slot (seg ++ [l]) d'.redirect) ∨
      ∃ step, d'.steps = step :: d.steps ∧ Emits o seg l step ∧ d'.block = .empty ∧
        d'.redirect = none := by
  cases hread with
  | identity hl hnew hid =>
    exact .inl ⟨rfl, hpending.snoc (by simp [Line.isHash, hl]),
      hslot.snoc (by simp [Line.value?, hl])⟩
  | @value key value entry hl hmeans =>
    obtain ⟨-, -, hblock, hsteps⟩ := d.put_eq entry
    exact .inl ⟨hsteps, hblock ▸ hpending.snoc (by simp [Line.isHash, hl]),
      hslot.reads_value hl hmeans⟩
  | unknown hl hkey =>
    exact .inl ⟨rfl, hpending.snoc (by simp [Line.isHash, hl]),
      hslot.snoc (Line.value?_of_unknown hl hkey)⟩
  | remark hl =>
    exact .inl ⟨rfl, hpending.snoc (by simp [Line.isHash, hl]),
      hslot.snoc (by simp [Line.value?, hl])⟩
  | embed hl hblock =>
    rw [hblock] at hpending
    cases hpending with
    | empty hidle => exact .inr ⟨_, rfl, .embed hidle hl hslot.flag, hblock, rfl⟩
  | action hl hblock =>
    rw [hblock] at hpending
    cases hpending with
    | empty hidle =>
      exact .inl ⟨rfl, .action hidle hl (by simp), hslot.snoc (by simp [Line.value?, hl])⟩
  | response hl hblock hquestion =>
    rw [hblock] at hpending
    have hvalue : l.value? .redirect = none := by
      rcases hl with hl | ⟨target, hl⟩ <;> simp [Line.value?, hl]
    cases hpending with
    | action hidle haction hinner =>
      exact .inl ⟨rfl, .complete hidle haction hinner ⟨hl, hquestion⟩ (by simp), hslot.snoc hvalue⟩
  | close hl hblock =>
    rw [hblock] at hpending
    have hblank := hl.resolve_right hend
    exact .inr ⟨_, rfl, .instruction (hpending.said hslot) hblank, rfl, rfl⟩
  | skip hl hblock =>
    have hblank := hl.resolve_right hend
    rw [hblock] at hpending ⊢
    cases hpending with
    | empty hidle =>
      exact .inl ⟨rfl, .empty (idle_snoc hidle (.inr hblank)),
        hslot.snoc (by simp [Line.value?, hblank])⟩

theorem Reads.pending_endOfText {seg : List Line} (hread : Reads o d l d')
    (hend : l.kind = .endOfText) (hpending : Pending seg d.block) (hslot : Slot seg d.redirect) :
    ∃ steps, Steps o seg steps ∧ d'.steps = steps.reverse ++ d.steps := by
  cases hread with
  | close hl hblock =>
    rw [hblock] at hpending
    exact ⟨_, .last (hpending.said hslot), rfl⟩
  | skip hl hblock =>
    rw [hblock] at hpending
    cases hpending with
    | empty hidle => exact ⟨[], .nil hidle, rfl⟩
  | response hl => simp [hend] at hl
  | identity hl | value hl | unknown hl | remark hl | embed hl | action hl => simp [hend] at hl

/-- **What reading adds to the steps** is what the lines say, together with those behind the step
before. -/
theorem steps_of_readLines {e : Draft} {seg : List Line} {last : Line}
    (hls : ∀ l ∈ ls, l.kind ≠ .endOfText) (hlast : last.kind = .endOfText)
    (hpending : Pending seg d.block) (hslot : Slot seg d.redirect)
    (h : d.readLines o (ls ++ [last]) = .ok e) :
    ∃ steps, Steps o (seg ++ ls) steps ∧ e.steps = steps.reverse ++ d.steps := by
  induction ls generalizing d seg with
  | nil =>
    obtain ⟨d', hread, hend⟩ := readLines_cons_eq_ok_iff.mp h
    rw [List.append_nil, ← Except.ok.inj hend]
    exact hread.pending_endOfText hlast hpending hslot
  | cons l ls ih =>
    obtain ⟨d', hread, hrest⟩ := readLines_cons_eq_ok_iff.mp h
    have hls' : ∀ l' ∈ ls, l'.kind ≠ .endOfText := fun l' hl' => hls l' (List.mem_cons_of_mem l hl')
    rcases hread.pending (hls l (List.mem_cons_self ..)) hpending hslot with
      ⟨hsteps, hpending', hslot'⟩ | ⟨step, hsteps, hemits, hblock, hredirect⟩
    · obtain ⟨steps, hsaid, he⟩ := ih hls' hpending' hslot' hrest
      exact ⟨steps, by simpa using hsaid, hsteps ▸ he⟩
    · have hstart : Pending [] d'.block := hblock ▸ .empty (by simp [Idle])
      obtain ⟨steps, hsaid, he⟩ := ih hls' hstart hredirect hrest
      exact ⟨step :: steps, .cons hemits hsaid, by simp [he, hsteps]⟩

/-! ## Lines that have to be read -/

/-- The lines behind a response: nothing, or a blank line. -/
def Behind (ls : List Line) : Prop :=
  ls = [] ∨ ∃ (l : Line) (rest : List Line), ls = l :: rest ∧ l.kind = .blank ∧ Blocks rest

/-- **What may still come**, of lines that are no header lines. -/
def Block.Awaits : Block → List Line → Prop
  | .empty, ls => Blocks ls
  | .action _ _, ls => ∃ (response : Line) (rest : List Line),
      ls = response :: rest ∧ response.IsResponse ∧ Behind rest
  | .complete _ _, ls => Behind ls

/-- The identity lines that may still come. -/
def MayName (d : Draft) (ls : List Line) : Prop :=
  ls.filterMap Line.identity? = [] ∨
    d.named = false ∧ ∃ id, ls.filterMap Line.identity? = [id] ∧ id ≠ ""

theorem MayName.tail (h : d.MayName (l :: ls)) (hl : l.identity? = none)
    (hnamed : d'.named = d.named) : d'.MayName ls := by
  rw [MayName, List.filterMap_cons_none hl, ← hnamed] at h
  exact h

theorem exists_reads_of_isHash (hl : l.isHash = true)
    (hvalue : ∀ (key : Key) (value : String), l.kind = .header key.name value →
      ∃ entry, Means key value entry) (hname : d.MayName (l :: ls)) :
    ∃ d', Reads o d l d' ∧ d'.block = d.block ∧ d'.MayName ls := by
  cases hkind : l.kind with
  | identity id =>
    have hid : l.identity? = some id := by simp [Line.identity?, hkind]
    rw [MayName, List.filterMap_cons_some hid] at hname
    rcases hname with hnil | ⟨hnew, id', hids, hne⟩
    · exact absurd hnil (by simp)
    · obtain ⟨rfl, hrest⟩ := List.cons.inj hids
      exact ⟨_, .identity hkind hnew hne, rfl, .inl hrest⟩
  | header name value =>
    have hid : l.identity? = none := by simp [Line.identity?, hkind]
    cases hkey : Key.ofName? name with
    | none => exact ⟨_, .unknown hkind hkey, rfl, hname.tail hid rfl⟩
    | some key =>
      rw [Key.ofName?_eq_some_iff.mp hkey] at hkind
      obtain ⟨entry, hmeans⟩ := hvalue key value hkind
      obtain ⟨-, hnamed, hblock, -⟩ := d.put_eq entry
      exact ⟨_, .value hkind hmeans, hblock, hname.tail hid hnamed⟩
  | remark =>
    exact ⟨_, .remark hkind, rfl, hname.tail (by simp [Line.identity?, hkind]) rfl⟩
  | _ => simp [Line.isHash, hkind] at hl

theorem exists_reads_of_awaits (h : d.block.Awaits (l :: ls)) :
    ∃ d', Reads o d l d' ∧ d'.block.Awaits ls ∧ d'.named = d.named := by
  cases hblock : d.block with
  | empty =>
    rw [hblock] at h
    cases h with
    | blank hkind hls => exact ⟨d, .skip (.inl hkind) hblock, hblock ▸ hls, rfl⟩
    | dash hkind hls => exact ⟨_, .embed hkind hblock, hblock ▸ hls, rfl⟩
    | instruction haction hresponse hkind hls =>
      exact ⟨_, .action haction hblock, ⟨_, _, rfl, hresponse, .inr ⟨_, _, rfl, hkind, hls⟩⟩, rfl⟩
    | last haction hresponse =>
      exact ⟨_, .action haction hblock, ⟨_, _, rfl, hresponse, .inl rfl⟩, rfl⟩
  | action n action =>
    rw [hblock] at h
    obtain ⟨response, rest, hcons, ⟨hkind, hquestion⟩, hbehind⟩ := h
    obtain ⟨rfl, rfl⟩ := List.cons.inj hcons
    exact ⟨_, .response hkind hblock hquestion, hbehind, rfl⟩
  | complete action response =>
    rw [hblock] at h
    rcases h with hnil | ⟨l', rest, hcons, hkind, hls⟩
    · exact absurd hnil (by simp)
    · obtain ⟨rfl, rfl⟩ := List.cons.inj hcons
      exact ⟨_, .close (.inl hkind) hblock, hls, rfl⟩

theorem exists_reads_of_endOfText (hl : l.kind = .endOfText) (h : d.block.Awaits []) :
    ∃ d', Reads o d l d' := by
  cases hblock : d.block with
  | empty => exact ⟨d, .skip (.inr hl) hblock⟩
  | action n action =>
    rw [hblock] at h
    obtain ⟨_, _, hcons, -⟩ := h
    exact absurd hcons (by simp)
  | complete action response => exact ⟨_, .close (.inr hl) hblock⟩

/-- **Lines that the grammar allows** are read. -/
theorem exists_readLines {last : Line} (hlast : last.kind = .endOfText)
    (hvalues : ∀ l ∈ ls, ∀ (key : Key) (value : String), l.kind = .header key.name value →
      ∃ entry, Means key value entry)
    (hname : d.MayName ls) (hblocks : d.block.Awaits (ls.filter (!·.isHash))) :
    ∃ e, d.readLines o (ls ++ [last]) = .ok e := by
  induction ls generalizing d with
  | nil =>
    obtain ⟨d', hread⟩ := exists_reads_of_endOfText hlast hblocks
    exact ⟨d', readLines_cons_eq_ok_iff.mpr ⟨d', hread, rfl⟩⟩
  | cons l ls ih =>
    have hvalues' := fun l' hl' => hvalues l' (List.mem_cons_of_mem l hl')
    cases hl : l.isHash with
    | true =>
      rw [List.filter_cons_of_neg (by simp [hl])] at hblocks
      obtain ⟨d', hread, hblock, hname'⟩ := exists_reads_of_isHash (o := o) hl
        (hvalues l (List.mem_cons_self ..)) hname
      obtain ⟨e, he⟩ := ih hvalues' hname' (hblock ▸ hblocks)
      exact ⟨e, readLines_cons_eq_ok_iff.mpr ⟨d', hread, he⟩⟩
    | false =>
      rw [List.filter_cons_of_pos (by simp [hl])] at hblocks
      obtain ⟨d', hread, hblocks', hnamed⟩ := exists_reads_of_awaits (o := o) hblocks
      have hid : l.identity? = none := by
        cases hkind : l.kind <;> simp_all [Line.isHash, Line.identity?]
      obtain ⟨e, he⟩ := ih hvalues' (hname.tail hid hnamed) hblocks'
      exact ⟨e, readLines_cons_eq_ok_iff.mpr ⟨d', hread, he⟩⟩

end Draft

end ScriptSuite
