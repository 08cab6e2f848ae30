import Mathlib.Data.List.GetD
import ScriptSuite.Proofs.Script.Acceptance

/-!
# Proofs/Script/Emission — at which points steps are emitted, and which flags they take

Every step is emitted at one **point** of a text: an embed at its own dash line, an instruction at
the first blank line behind its response or at the end of the text (`Grammar.EmittedAt`).  The
redirect flag is a slot for one step: redirect lines set it, and each point empties it.  So a step
takes the last flag that is set between the point of the step before and its own, and redirect lines
behind the last point say nothing (`Script.redirect_of_read`).
-/

namespace ScriptSuite

open Header

namespace Grammar

variable {o : Script.Options} {ls : List Line} {steps : List Step} {points : List Nat}
  {start point : Nat} {step : Step}

/-! ## Points -/

/-- **A step is emitted at a point**, behind the point of the step before: at the line with this
index, counted from zero, or at the end of the lines. -/
inductive EmittedAt (o : Script.Options) (ls : List Line) (start : Nat) : Nat → Step → Prop
  | line {point : Nat} {l : Line} {step : Step} (hstart : start ≤ point) (hl : ls[point]? = some l)
      (hemits : Emits o ((ls.take point).drop start) l step) : EmittedAt o ls start point step
  | atEnd {i : Instruction} (hsaid : Says o (ls.drop start) i) :
      EmittedAt o ls start ls.length (.instruction i)

/-- Where the lines of a step begin: behind the point of the step before it. -/
def behind (points : List Nat) : Nat → Nat
  | 0 => 0
  | k + 1 => points.getD k 0 + 1

/-- **The points of steps**, one for each of them. -/
structure Points (o : Script.Options) (ls : List Line) (steps : List Step) (points : List Nat) :
    Prop where
  length_eq : points.length = steps.length
  emitted : ∀ (k point : Nat) (step : Step), points[k]? = some point → steps[k]? = some step →
    EmittedAt o ls (behind points k) point step

theorem Says.redirects {i : Instruction} (h : Says o ls i) : Redirects o ls i.redirect := by
  cases h
  assumption

/-- **The flag of a step** is set between the point of the step before and its own. -/
theorem EmittedAt.redirects (h : EmittedAt o ls start point step) :
    Redirects o ((ls.take point).drop start) step.redirect := by
  cases h with
  | line hstart hl hemits =>
    generalize (ls.take point).drop start = seg at hemits
    cases hemits with
    | embed hidle hkind hflag => exact hflag
    | instruction hsaid hkind => exact hsaid.redirects
  | atEnd hsaid =>
    rw [List.take_length]
    exact hsaid.redirects

/-! ## One point more -/

theorem behind_append {k : Nat} (hk : k ≤ points.length) (more : List Nat) :
    behind (points ++ more) k = behind points k := by
  cases k with
  | zero => rfl
  | succ k => rw [behind, behind, List.getD_append _ _ _ _ hk]

theorem behind_snoc (points : List Nat) (point : Nat) :
    behind (points ++ [point]) (points ++ [point]).length = point + 1 := by
  simp [behind]

/-- The index of an element is that of one before the last, or of the last one. -/
theorem getElem?_snoc_cases {α : Type} {xs : List α} {x y : α} {k : Nat}
    (h : (xs ++ [x])[k]? = some y) :
    (k < xs.length ∧ xs[k]? = some y) ∨ (k = xs.length ∧ x = y) := by
  rw [List.getElem?_append] at h
  split at h
  · exact .inl ⟨‹_›, h⟩
  · obtain ⟨hlt, hy⟩ := List.getElem?_eq_some_iff.mp h
    rw [List.length_singleton] at hlt
    exact .inr ⟨by omega, by simpa using hy⟩

theorem Points.snoc (h : Points o ls steps points)
    (hstep : EmittedAt o ls (behind points points.length) point step) :
    Points o ls (steps ++ [step]) (points ++ [point]) where
  length_eq := by simp [h.length_eq]
  emitted := by
    intro k point' step' hpoint' hstep'
    rcases getElem?_snoc_cases hpoint' with ⟨hk, hpoint'⟩ | ⟨hk, rfl⟩
    · rw [List.getElem?_append_left (h.length_eq ▸ hk)] at hstep'
      rw [behind_append hk.le]
      exact h.emitted k point' step' hpoint' hstep'
    · rcases getElem?_snoc_cases hstep' with ⟨hlt, -⟩ | ⟨-, rfl⟩
      · exact absurd hlt (by rw [hk, h.length_eq]; exact lt_irrefl _)
      · rw [behind_append hk.le, hk]
        exact hstep

/-- **Lines that emit steps**, up to the one that emits the last. -/
inductive Emitted (o : Script.Options) : List Line → List Step → Prop
  | nil : Emitted o [] []
  | snoc {ls seg : List Line} {l : Line} {steps : List Step} {step : Step} (h : Emitted o ls steps)
      (hemits : Emits o seg l step) : Emitted o (ls ++ seg ++ [l]) (steps ++ [step])

/-- **Lines that emit steps have their points**, whatever lines follow. -/
theorem Emitted.exists_points (h : Emitted o ls steps) : ∃ points : List Nat,
    behind points points.length = ls.length ∧ ∀ rest, Points o (ls ++ rest) steps points := by
  induction h with
  | nil => exact ⟨[], rfl, fun _ => ⟨rfl, by simp⟩⟩
  | @snoc ls seg l steps step h hemits ih =>
    obtain ⟨points, hbehind, hpoints⟩ := ih
    refine ⟨points ++ [(ls ++ seg).length], ?_, fun rest => ?_⟩
    · rw [behind_snoc]
      simp only [List.length_append, List.length_singleton]
    · have hlines : ls ++ seg ++ [l] ++ rest = (ls ++ seg) ++ (l :: rest) := by simp
      rw [hlines]
      have hbefore := hpoints (seg ++ l :: rest)
      rw [← List.append_assoc] at hbefore
      refine hbefore.snoc ?_
      rw [hbehind]
      refine .line (by simp) (l := l) (by simp) ?_
      rw [List.take_left, List.drop_left]
      exact hemits

end Grammar

/-! ## Reading up to the last point -/

open Grammar

section Reading

variable {o : Script.Options} {d e : Draft} {ls : List Line} {l : Line}

theorem Draft.readLines_snoc_eq_ok_iff : d.readLines o (ls ++ [l]) = .ok e ↔
    ∃ d', d.readLines o ls = .ok d' ∧ Reads o d' l e := by
  rw [readLines_append]
  cases d.readLines o ls with
  | error defect => simp [Except.bind]
  | ok d' =>
    change d'.readLines o [l] = .ok e ↔ _
    simp [readLines_cons_eq_ok_iff]

/-- **Lines that were read** are those up to the last point, at which no instruction is under way,
and those since. -/
theorem Draft.exists_emitted (hls : ∀ l ∈ ls, l.kind ≠ .endOfText)
    (h : readLines o {} ls = .ok d) : ∃ (done seg : List Line) (d₀ : Draft), ls = done ++ seg ∧
      Emitted o done d.steps.reverse ∧ readLines o {} done = .ok d₀ ∧ d₀.block = .empty ∧
      Pending seg d.block ∧ Slot seg d.redirect := by
  induction ls using List.reverseRecOn generalizing d with
  | nil =>
    obtain rfl := Except.ok.inj h
    exact ⟨[], [], {}, rfl, .nil, rfl, rfl, .empty (by simp [Idle]), rfl⟩
  | append_singleton ls l ih =>
    obtain ⟨d', hread, hl⟩ := readLines_snoc_eq_ok_iff.mp h
    obtain ⟨done, seg, d₀, rfl, hemitted, hdone, hblock₀, hpending, hslot⟩ :=
      ih (fun l' hl' => hls l' (List.mem_append_left _ hl')) hread
    rcases hl.pending (hls l (by simp)) hpending hslot with
      ⟨hsteps, hpending', hslot'⟩ | ⟨step, hsteps, hemits, hblock, hredirect⟩
    · exact ⟨done, seg ++ [l], d₀, by simp, hsteps ▸ hemitted, hdone, hblock₀, hpending', hslot'⟩
    · have hsnoc := hemitted.snoc hemits
      rw [← List.reverse_cons, ← hsteps] at hsnoc
      exact ⟨done ++ seg ++ [l], [], d, by simp, hsnoc, h, hblock,
        hblock ▸ .empty (by simp [Idle]), hredirect⟩

/-- The end of the text emits the instruction under way, if there is one. -/
theorem Draft.Reads.endOfText_cases (h : Draft.Reads o d l e) (hl : l.kind = .endOfText) :
    (∃ action response, d.block = .complete action response ∧ e = d.close o action response) ∨
      d.block = .empty ∧ e = d := by
  cases h with
  | close _ hblock => exact .inl ⟨_, _, hblock, rfl⟩
  | skip _ hblock => exact .inr ⟨hblock, rfl⟩
  | response hkind => simp [hl] at hkind
  | identity hkind | value hkind | unknown hkind | remark hkind | embed hkind | action hkind =>
    simp [hl] at hkind

/-- **The steps of a text that was read have their points**.  Behind the last one are lines between
steps; reading comes to them with no instruction under way. -/
theorem Script.exists_points {text : String} {s : Script} (h : Script.read o text = .ok s) :
    ∃ points, Points o (Line.written text) s.steps points ∧
      Idle ((Line.written text).drop (behind points points.length)) ∧
      (behind points points.length ≤ (Line.written text).length →
        ∃ d, Draft.readLines o {} ((Line.written text).take (behind points points.length)) = .ok d ∧
          d.block = .empty) := by
  obtain ⟨e, hread, -, -, rfl⟩ := Script.read_eq_ok_iff.mp h
  rw [Line.ofText_eq] at hread
  obtain ⟨d, hread, hend⟩ := Draft.readLines_snoc_eq_ok_iff.mp hread
  obtain ⟨done, seg, d₀, hlines, hemitted, hdone, hblock₀, hpending, hslot⟩ :=
    Draft.exists_emitted (fun l hl => kind_ne_endOfText_of_mem_written hl) hread
  obtain ⟨points, hbehind, hpoints⟩ := hemitted.exists_points
  rw [hlines]
  rcases hend.endOfText_cases rfl with ⟨action, response, hblock, rfl⟩ | ⟨hblock, rfl⟩
  · rw [hblock] at hpending
    have hlast : EmittedAt o (done ++ seg) (behind points points.length) _ _ :=
      .atEnd (by rw [hbehind, List.drop_left]; exact hpending.said hslot)
    refine ⟨points ++ [(done ++ seg).length], ?_, ?_, ?_⟩
    · simpa [Draft.close, Draft.emit] using (hpoints seg).snoc hlast
    · rw [behind_snoc, List.drop_eq_nil_of_le (Nat.le_succ _)]
      simp [Idle]
    · rw [behind_snoc]
      exact fun hle => absurd hle (Nat.not_succ_le_self _)
  · rw [hblock] at hpending
    cases hpending with
    | empty hidle =>
      refine ⟨points, hpoints seg, ?_, fun _ => ⟨d₀, ?_, hblock₀⟩⟩
      · rwa [hbehind, List.drop_left]
      · rwa [hbehind, List.take_left]

end Reading

/-! ## Lines behind the last point -/

namespace Line

/-- The lines that begin a text, without the end of the text. -/
def ofLines (ls : List (List Char)) : List Line := ls.mapIdx fun i cs => ofChars (i + 1) cs

theorem numbered_append (front back : List (List Char)) :
    numbered 0 (front ++ back) = ofLines front ++ numbered front.length back := by
  simp [numbered, ofLines, List.mapIdx_append, Nat.add_comm]

theorem take_written (text : String) (n : Nat) :
    (written text).take n = ofLines ((lines text.toList).take n) := by
  refine List.ext_getElem? fun i => ?_
  rw [written, ofLines, List.getElem?_take, List.getElem?_mapIdx, List.getElem?_mapIdx,
    List.getElem?_take]
  split <;> rfl

/-- A line behind the first lines of a text has its characters there. -/
theorem exists_mem_drop_written {text : String} {n : Nat} {cs : List Char}
    (h : cs ∈ (lines text.toList).drop n) : ∃ k, ofChars k cs ∈ (written text).drop n := by
  obtain ⟨i, hi, rfl⟩ := List.getElem_of_mem h
  refine ⟨n + i + 1, List.mem_of_getElem? (i := i) ?_⟩
  rw [List.getElem?_drop, written, List.getElem?_mapIdx, ← List.getElem?_drop,
    List.getElem?_eq_getElem hi]
  rfl

theorem kind_of_value? {key : Key} {l : Line} {value : String} (h : l.value? key = some value) :
    l.kind = .header key.name value := by
  rw [value?] at h
  split at h
  · rename_i name _ hkind
    obtain ⟨hname, hvalue⟩ := Option.ite_none_right_eq_some.mp h
    rw [hkind, hname, Option.some.inj hvalue]
  · exact absurd h (by simp)

/-- Characters of a redirect line. -/
def isRedirect (cs : List Char) : Bool := ((ofChars 0 cs).value? .redirect).isSome

/-- Characters of lines that are between steps. -/
def BetweenSteps (ls : List (List Char)) : Prop :=
  ∀ cs ∈ ls, (ofChars 0 cs).isHash = true ∨ (ofChars 0 cs).kind = .blank

/-- Every redirect line has a boolean. -/
def HaveFlags (ls : List (List Char)) : Prop :=
  ∀ cs ∈ ls, ∀ value, (ofChars 0 cs).value? .redirect = some value →
    ∃ flag, value ∈ spellings flag

/-- **Lines that differ in redirect lines alone**, and only behind the first `n`. -/
structure DifferInRedirects (n : Nat) (ls ls' : List (List Char)) : Prop where
  front : ls'.take n = ls.take n
  back : (ls'.drop n).filter (!isRedirect ·) = (ls.drop n).filter (!isRedirect ·)
  flags : HaveFlags (ls'.drop n)

theorem betweenSteps_of_idle {text : String} {n : Nat} (h : Idle ((written text).drop n)) :
    BetweenSteps ((lines text.toList).drop n) := by
  intro cs hcs
  obtain ⟨k, hk⟩ := exists_mem_drop_written hcs
  exact h (ofChars k cs) hk

/-- The redirect lines of a text that was read have booleans. -/
theorem haveFlags_of_grammatical {o : Script.Options} {text : String}
    (h : Grammatical o (written text)) (n : Nat) : HaveFlags ((lines text.toList).drop n) := by
  intro cs hcs value hvalue
  obtain ⟨k, hk⟩ := exists_mem_drop_written hcs
  have hkind := kind_of_value? (l := ofChars k cs) hvalue
  obtain ⟨entry, hmeans⟩ := h.values _ (List.mem_of_mem_drop hk) .redirect value hkind
  cases hmeans with
  | redirect hflag => exact ⟨_, hflag⟩

/-- Redirect lines are between steps themselves. -/
theorem DifferInRedirects.betweenSteps {n : Nat} {ls ls' : List (List Char)}
    (h : DifferInRedirects n ls ls') (hls : BetweenSteps (ls.drop n)) :
    BetweenSteps (ls'.drop n) := by
  intro cs hcs
  cases hvalue : (ofChars 0 cs).value? .redirect with
  | some value => exact .inl (by simp [isHash, kind_of_value? hvalue])
  | none =>
    have hkept := List.mem_filter_of_mem (p := (!isRedirect ·)) hcs (by simp [isRedirect, hvalue])
    rw [h.back] at hkept
    exact hls cs (List.mem_of_mem_filter hkept)

end Line

/-- **Reading goes on** behind the lines that begin a text. -/
theorem Script.read_eq_of_append {o : Script.Options} {text : String}
    {front back : List (List Char)} {d : Draft} (hlines : lines text.toList = front ++ back)
    (hfront : Draft.readLines o {} (Line.ofLines front) = .ok d) :
    Script.read o text = (d.readFrom o front.length back).bind fun e => e.finish o := by
  rw [Script.read_eq, Line.ofText, hlines, Line.numbered_append, Draft.readLines_append, hfront,
    Draft.readFrom_eq]
  rfl

namespace Draft

variable {o : Script.Options} {d e : Draft} {l : Line}

theorem readFrom_cons_eq_ok_iff {n : Nat} {cs : List Char} {ls : List (List Char)} :
    d.readFrom o n (cs :: ls) = .ok e ↔
      ∃ d', Reads o d (Line.ofChars (n + 1) cs) d' ∧ d'.readFrom o (n + 1) ls = .ok e := by
  simp only [readFrom_eq, Line.numbered_cons, readLines_cons_eq_ok_iff]

/-- A draft with another redirect flag. -/
def flagged (flag : Option Bool) (d : Draft) : Draft := { d with redirect := flag }

/-- The end asks nothing of the redirect flag. -/
theorem finish_flagged (d : Draft) (flag : Option Bool) : (d.flagged flag).finish o = d.finish o :=
  rfl

theorem bind_finish_eq_ok_iff {x : Except Defect Draft} {s : Script} :
    (x.bind fun e => e.finish o) = .ok s ↔
      ∃ e, (∃ e', x = .ok e' ∧ e'.flagged none = e) ∧ e.finish o = .ok s := by
  cases x <;> simp [Except.bind, finish_flagged]

theorem put_flagged {key : Header.Key} {value : String} {entry : Entry}
    (hmeans : Means key value entry) (hkey : key ≠ .redirect) (flag : Option Bool) :
    (d.put entry).flagged flag = (d.flagged flag).put entry := by
  cases hmeans with
  | redirect => exact absurd rfl hkey
  | _ => rfl

/-- **A line between steps** that sets no flag does the same whatever flag is set, and wherever it
stands. -/
theorem Reads.reflag (h : Reads o d l e) (hl : l.isHash = true ∨ l.kind = .blank)
    (hvalue : l.value? .redirect = none) (hblock : d.block = .empty) (n : Nat)
    (flag : Option Bool) :
    Reads o (d.flagged flag) { l with number := n } (e.flagged flag) ∧ e.block = .empty := by
  cases h with
  | identity hkind hnew hid => exact ⟨.identity hkind hnew hid, hblock⟩
  | @value key value entry hkind hmeans =>
    have hkey : key ≠ .redirect := by
      rintro rfl
      rw [Line.value?_of_header hkind] at hvalue
      simp at hvalue
    obtain ⟨-, -, hput, -⟩ := d.put_eq entry
    rw [put_flagged hmeans hkey]
    exact ⟨.value hkind hmeans, hput.trans hblock⟩
  | unknown hkind hkey => exact ⟨.unknown hkind hkey, hblock⟩
  | remark hkind => exact ⟨.remark hkind, hblock⟩
  | skip hkind _ => exact ⟨.skip hkind hblock, hblock⟩
  | close hkind hcomplete => simp [hblock] at hcomplete
  | response hkind haction => simp [hblock] at haction
  | embed hkind | action hkind => simp [Line.isHash, hkind] at hl

/-- A redirect line sets the flag, and nothing else. -/
theorem reads_redirect {value : String} {flag : Bool} (hl : l.value? .redirect = some value)
    (hflag : value ∈ spellings flag) : Reads o d l (d.flagged (some flag)) :=
  .value (Line.kind_of_value? hl) (.redirect hflag)

/-- **Redirect lines between steps can be left out**: what the other lines do stays the same. -/
theorem readFrom_filter_isRedirect {ls : List (List Char)} (hidle : Line.BetweenSteps ls)
    (hflags : Line.HaveFlags ls) (hblock : d.block = .empty) (n m : Nat) (flag : Option Bool) :
    (∃ e', d.readFrom o n ls = .ok e' ∧ e'.flagged none = e) ↔
      ∃ e', (d.flagged flag).readFrom o m (ls.filter (!Line.isRedirect ·)) = .ok e' ∧
        e'.flagged none = e := by
  induction ls generalizing d n m flag with
  | nil =>
    have hend : ∀ (d : Draft) (n : Nat), d.block = .empty → d.readFrom o n [] = .ok d :=
      fun _ _ hd => step_of_reads (.skip (.inr rfl) hd)
    rw [List.filter_nil, hend d n hblock, hend (d.flagged flag) m hblock]
    simp [flagged]
  | cons cs ls ih =>
    obtain ⟨hline, hidle⟩ := List.forall_mem_cons.mp hidle
    obtain ⟨hflag, hflags⟩ := List.forall_mem_cons.mp hflags
    cases hvalue : (Line.ofChars 0 cs).value? .redirect with
    | some value =>
      obtain ⟨flag', hflag'⟩ := hflag value hvalue
      have hread : Reads o d (Line.ofChars (n + 1) cs) _ := reads_redirect hvalue hflag'
      rw [List.filter_cons_of_neg (by simp [Line.isRedirect, hvalue]), readFrom,
        step_of_reads hread]
      exact ih (d := d.flagged (some flag')) hidle hflags hblock (n + 1) m flag
    | none =>
      have hreflag : ∀ {d e : Draft} {k : Nat}, Reads o d (Line.ofChars k cs) e →
          d.block = .empty → ∀ k' flag, Reads o (d.flagged flag) (Line.ofChars k' cs)
            (e.flagged flag) ∧ e.block = .empty :=
        fun h hd k' flag => h.reflag hline hvalue hd k' flag
      rw [List.filter_cons_of_pos (by simp [Line.isRedirect, hvalue])]
      simp only [readFrom_cons_eq_ok_iff]
      constructor
      · rintro ⟨e', ⟨d', hread, hrest⟩, he⟩
        obtain ⟨hread', hd'⟩ := hreflag hread hblock (m + 1) flag
        obtain ⟨e'', hrest'', he''⟩ := (ih hidle hflags hd' (n + 1) (m + 1) flag).mp ⟨e', hrest, he⟩
        exact ⟨e'', ⟨_, hread', hrest''⟩, he''⟩
      · rintro ⟨e', ⟨d', hread, hrest⟩, he⟩
        obtain ⟨hread', hd'⟩ := hreflag hread hblock (n + 1) d.redirect
        obtain ⟨e'', hrest'', he''⟩ :=
          (ih (d := d'.flagged d.redirect) hidle hflags hd' (n + 1) (m + 1) d'.redirect).mpr
            ⟨e', hrest, he⟩
        exact ⟨e'', ⟨_, hread', hrest''⟩, he''⟩

end Draft

/-- **Redirect lines behind the last step** of a text can be put in, taken away and changed. -/
theorem Script.read_congr_behind {o : Script.Options} {text text' : String} {s : Script} {d : Draft}
    {last : Nat} (h : Script.read o text = .ok s)
    (hfront : Draft.readLines o {} ((Line.written text).take last) = .ok d)
    (hblock : d.block = .empty) (hidle : Idle ((Line.written text).drop last))
    (hdiffer : Line.DifferInRedirects last (lines text.toList) (lines text'.toList)) :
    Script.read o text' = .ok s := by
  rw [Line.take_written] at hfront
  have hbetween := Line.betweenSteps_of_idle hidle
  have hflags := Line.haveFlags_of_grammatical (grammatical_and_describes_of_read h).1 last
  have hlines' : lines text'.toList =
      (lines text.toList).take last ++ (lines text'.toList).drop last :=
    hdiffer.front ▸ (List.take_append_drop last _).symm
  rw [Script.read_eq_of_append (List.take_append_drop last _).symm hfront,
    Draft.bind_finish_eq_ok_iff] at h
  obtain ⟨e, hread, hfinish⟩ := h
  rw [Script.read_eq_of_append hlines' hfront, Draft.bind_finish_eq_ok_iff]
  refine ⟨e, ?_, hfinish⟩
  have hbetween' := hdiffer.betweenSteps hbetween
  rw [Draft.readFrom_filter_isRedirect hbetween' hdiffer.flags hblock _ 0 none, hdiffer.back,
    ← Draft.readFrom_filter_isRedirect hbetween hflags hblock]
  exact hread

/-- A script is read from the lines of its text, and from nothing else of it. -/
theorem Script.read_congr_lines {o : Script.Options} {text text' : String}
    (h : lines text'.toList = lines text.toList) : Script.read o text' = Script.read o text := by
  rw [Script.read, h, Script.read]

/-- **A redirect line tells the step that is emitted next**, and no other.  The steps of a text that
was read have their points, and each takes the last flag that is set between the point of the step
before and its own, or the default.  Redirect lines behind the last point can be put in, taken away
and changed, as long as each has a boolean: the script stays the same. -/
theorem Script.redirect_of_read {o : Script.Options} {text : String} {s : Script}
    (h : Script.read o text = .ok s) : ∃ points,
    Points o (Line.written text) s.steps points ∧
    Idle ((Line.written text).drop (behind points points.length)) ∧
    (∀ (k point : Nat) (step : Step), points[k]? = some point → s.steps[k]? = some step →
      Redirects o (((Line.written text).take point).drop (behind points k)) step.redirect) ∧
    ∀ text', Line.DifferInRedirects (behind points points.length) (lines text.toList)
      (lines text'.toList) → Script.read o text' = .ok s := by
  obtain ⟨points, hpoints, hidle, hlast⟩ := Script.exists_points h
  refine ⟨points, hpoints, hidle, fun k point step hpoint hstep =>
    (hpoints.emitted k point step hpoint hstep).redirects, fun text' hdiffer => ?_⟩
  generalize behind points points.length = last at hidle hlast hdiffer
  by_cases hle : last ≤ (Line.written text).length
  · obtain ⟨d, hfront, hblock⟩ := hlast hle
    exact Script.read_congr_behind h hfront hblock hidle hdiffer
  · -- the end of the text is the last point, and there is nothing behind it
    have hlast : (lines text.toList).length < last := by simpa [Line.written] using hle
    have hsame := hdiffer.front
    have hlength := congrArg List.length hsame
    simp only [List.length_take] at hlength
    rw [List.take_of_length_le (by omega), List.take_of_length_le (by omega)] at hsame
    rw [Script.read_congr_lines hsame, h]

/-- A redirect line behind a response tells the instruction before it, as long as no blank line has
come; one behind the last step says nothing. -/
theorem Script.redirect_of_read_behind_response :
    let o : Script.Options := ⟨false, false⟩
    let text := "#! x\n# redirect: f\nA\nB?\n# redirect: t\n\n- y\n# redirect: 1"
    let s : Script :=
      { id := "x", steps := [.instruction ⟨"A", "B?", true⟩, .embed ⟨"y", false⟩] }
    Script.read o text = .ok s ∧ Points o (Line.written text) s.steps [5, 6] ∧
      Redirects o (((Line.written text).take 5).drop 0) true ∧
      Redirects o (((Line.written text).take 6).drop 6) false ∧
      Script.read o "#! x\n# redirect: f\nA\nB?\n# redirect: t\n\n- y" = .ok s := by
  intro o text s
  have h : Script.read o text = .ok s := by decide
  obtain ⟨points, hpoints, -, hflags, hdiffer⟩ := Script.redirect_of_read h
  obtain ⟨p, q, rfl⟩ := List.length_eq_two.mp hpoints.length_eq
  have hlength : (Line.written text).length = 8 := by decide
  have hdash : ∀ q < 8, ((Line.written text)[q]?).map Line.kind = some (.dash "y") → q = 6 := by
    decide
  have hblank : ∀ p < 8, ((Line.written text)[p]?).map Line.kind = some .blank → p = 5 := by
    decide
  have hq : p < q ∧ q = 6 := by
    cases hpoints.emitted 1 q _ rfl rfl with
    | line hstart hl hemits =>
      have hlt : q < 8 := hlength ▸ (List.getElem?_eq_some_iff.mp hl).1
      cases hemits with
      | embed _ hkind _ => exact ⟨hstart, hdash q hlt (by rw [hl, Option.map_some, hkind])⟩
  obtain ⟨hlt, rfl⟩ := hq
  have hp : p = 5 := by
    cases hpoints.emitted 0 p _ rfl rfl with
    | line _ hl hemits =>
      cases hemits with
      | instruction _ hkind => exact hblank p (by omega) (by rw [hl, Option.map_some, hkind])
    | atEnd => exact absurd hlt (by decide)
  subst hp
  have hnil : (lines "#! x\n# redirect: f\nA\nB?\n# redirect: t\n\n- y".toList).drop 7 = [] := by
    decide
  exact ⟨h, hpoints, hflags 0 5 _ rfl rfl, hflags 1 6 _ rfl rfl,
    hdiffer _ ⟨by decide, by decide, fun cs hcs => absurd (hnil ▸ hcs) List.not_mem_nil⟩⟩

end ScriptSuite
