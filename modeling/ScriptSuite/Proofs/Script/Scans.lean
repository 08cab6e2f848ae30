import Mathlib.Data.List.FinRange
import Mathlib.Order.Bounds.Basic
import Mathlib.Order.Nat
import ScriptSuite.Proofs.Script.Placeholders

/-!
# Proofs/Script/Scans — the placeholders of a text, from left to right

A **scan** goes through a text from place to place (`Scan`): it takes the first placeholder that
does not begin before its cursor, and goes on behind it.  A text has one scan, and what it leaves
out begins inside of something that it takes (`Scan.mem_or_inside`).  `uploadsIn` finds what a scan
finds, though it goes from character to character (`Scan.uploadsIn_eq`), and so the uploads of a
script are those of the scans of its texts (`uploads_exact`).
-/

namespace ScriptSuite

/-! ## Where placeholders stand -/

/-- **A placeholder stands at a place** of a text: the text goes on with it there. -/
def StandsAt (text : List Char) (i : Nat) (p : Placeholder) : Prop := p.text <+: text.drop i

/-- Some placeholder stands at a place, and the cursor is not behind it. -/
def Ahead (text : List Char) (cursor i : Nat) : Prop := cursor ≤ i ∧ ∃ p, StandsAt text i p

/-- **A scan** from a cursor: the placeholders that it finds, each with its place.  It takes the
first placeholder that does not begin before the cursor, and goes on behind it. -/
inductive Scan (text : List Char) : Nat → List (Nat × Placeholder) → Prop
  | done {cursor} (h : ∀ i, ¬ Ahead text cursor i) : Scan text cursor []
  | found {cursor i p rest} (hi : IsLeast {i | Ahead text cursor i} i) (hp : StandsAt text i p)
      (hrest : Scan text (i + p.text.length) rest) : Scan text cursor ((i, p) :: rest)

variable {text : List Char} {i j cursor : Nat} {p q : Placeholder}
  {found found' : List (Nat × Placeholder)}

theorem StandsAt.unique (hp : StandsAt text i p) (hq : StandsAt text i q) : p = q := by
  obtain ⟨rest, hrest⟩ := hp
  obtain ⟨rest', hrest'⟩ := hq
  exact (Placeholder.text_append_inj (hrest.trans hrest'.symm)).1

theorem StandsAt.add_length_le (h : StandsAt text i p) : i + p.text.length ≤ text.length := by
  have hle := h.length_le
  have hpos := p.length_text_pos
  rw [List.length_drop] at hle
  omega

namespace Scan

/-- **Every text has a scan.** -/
theorem exists_scan (text : List Char) (cursor : Nat) : ∃ found, Scan text cursor found := by
  induction h : text.length - cursor using Nat.strong_induction_on generalizing cursor with
  | _ n ih =>
    by_cases hahead : ∃ i, Ahead text cursor i
    · classical
      have hi := Nat.isLeast_find hahead
      obtain ⟨hle, p, hp⟩ := hi.1
      have hpos := p.length_text_pos
      have hend := hp.add_length_le
      obtain ⟨rest, hrest⟩ := ih (text.length - (Nat.find hahead + p.text.length)) (by omega) _ rfl
      exact ⟨_, .found hi hp hrest⟩
    · exact ⟨[], .done (not_exists.mp hahead)⟩

/-- **A text has one scan.** -/
theorem unique (h : Scan text cursor found) (h' : Scan text cursor found') : found = found' := by
  induction h generalizing found' with
  | done hnone =>
    cases h' with
    | done => rfl
    | found hi _ _ => exact absurd hi.1 (hnone _)
  | found hi hp _ ih =>
    cases h' with
    | done hnone => exact absurd hi.1 (hnone _)
    | found hi' hp' hrest' =>
      obtain rfl := hi.unique hi'
      obtain rfl := hp.unique hp'
      rw [ih hrest']

/-- **What a scan leaves out** begins inside of a placeholder that it finds. -/
theorem mem_or_inside (h : Scan text cursor found) (hi : cursor ≤ i) (hp : StandsAt text i p) :
    (i, p) ∈ found ∨ ∃ e ∈ found, e.1 < i ∧ i < e.1 + e.2.text.length := by
  induction h with
  | done hnone => exact absurd ⟨hi, p, hp⟩ (hnone i)
  | @found cursor j q rest hj hq hrest ih =>
    rcases (hj.2 ⟨hi, p, hp⟩).eq_or_lt with rfl | hlt
    · exact .inl (by rw [hp.unique hq]; exact List.mem_cons_self)
    · by_cases hend : j + q.text.length ≤ i
      · rcases ih hend with hmem | ⟨e, he, hinside⟩
        · exact .inl (List.mem_cons_of_mem _ hmem)
        · exact .inr ⟨e, List.mem_cons_of_mem _ he, hinside⟩
      · exact .inr ⟨(j, q), List.mem_cons_self, hlt, Nat.not_le.mp hend⟩

end Scan

/-! ## The search -/

theorem uploadsIn_text_append (p : Placeholder) (rest : List Char) :
    uploadsIn (p.text ++ rest) = p.upload :: uploadsIn rest := by
  rw [uploadsIn_eq, p.at?_text_append]

theorem uploadsIn_nil : uploadsIn [] = [] := by
  rw [uploadsIn]
  rfl

/-- The search goes past a place where no placeholder stands. -/
theorem uploadsIn_drop_succ (h : ∀ p, ¬ StandsAt text i p) :
    uploadsIn (text.drop i) = uploadsIn (text.drop (i + 1)) := by
  rw [uploadsIn_eq, Placeholder.at?_eq_none h, ← List.tail_drop]
  cases text.drop i with
  | nil => exact uploadsIn_nil.symm
  | cons c cs => rfl

/-- The search comes to the place where the next placeholder stands. -/
theorem uploadsIn_drop_eq (hle : cursor ≤ i) (h : ∀ j < i, ¬ Ahead text cursor j) :
    uploadsIn (text.drop cursor) = uploadsIn (text.drop i) := by
  induction hle with
  | refl => rfl
  | @step m hle ih =>
    have hnone : ∀ p, ¬ StandsAt text m p := fun p hp => h m m.lt_succ_self ⟨hle, p, hp⟩
    rw [ih fun j hj => h j (hj.trans m.lt_succ_self), uploadsIn_drop_succ hnone]

/-- **The search finds what a scan finds.** -/
theorem Scan.uploadsIn_eq (h : Scan text cursor found) :
    uploadsIn (text.drop cursor) = found.map (·.2.upload) := by
  induction h with
  | @done cursor hnone =>
    rw [uploadsIn_drop_eq (Nat.le_add_right cursor text.length) fun j _ => hnone j,
      List.drop_eq_nil_of_le (Nat.le_add_left ..), uploadsIn_nil, List.map_nil]
  | @found cursor i p rest hi hp _ ih =>
    obtain ⟨behind, hbehind⟩ := hp
    have hdrop : text.drop (i + p.text.length) = behind := by
      rw [← List.drop_drop, ← hbehind, List.drop_left]
    rw [hdrop] at ih
    rw [uploadsIn_drop_eq hi.1.1 fun j hj hahead => (hi.2 hahead).not_gt hj, ← hbehind,
      uploadsIn_text_append, ih, List.map_cons]

/-! ## Texts with placeholders in between -/

/-- A text in which each placeholder comes behind a text of its own, with a last text behind all of
them. -/
def interleaved (parts : List (List Char × Placeholder)) (last : List Char) : List Char :=
  parts.flatMap (fun part => part.1 ++ part.2.text) ++ last

/-- No placeholder stands in a text without braces. -/
theorem uploadsIn_append_of_notMem {sep : List Char} (h : '\x7b' ∉ sep) (cs : List Char) :
    uploadsIn (sep ++ cs) = uploadsIn cs := by
  induction sep with
  | nil => rfl
  | cons c sep ih =>
    obtain ⟨hc, hsep⟩ : '\x7b' ≠ c ∧ '\x7b' ∉ sep := by simpa using h
    have hnone : Upload.at? (c :: (sep ++ cs)) = none :=
      Placeholder.at?_eq_none fun p hp => hc (List.cons_prefix_cons.mp hp).1
    rw [List.cons_append, uploadsIn_eq, hnone]
    exact ih hsep

/-- **The placeholders between texts without opening braces** are found, each of them. -/
theorem uploadsIn_interleaved {parts : List (List Char × Placeholder)} {last : List Char}
    (hparts : ∀ part ∈ parts, '\x7b' ∉ part.1) (hlast : '\x7b' ∉ last) :
    uploadsIn (interleaved parts last) = parts.map (·.2.upload) := by
  induction parts with
  | nil =>
    simpa [interleaved, uploadsIn_nil] using uploadsIn_append_of_notMem hlast []
  | cons part parts ih =>
    obtain ⟨hpart, hparts⟩ := List.forall_mem_cons.mp hparts
    have htext : interleaved (part :: parts) last =
        part.1 ++ (part.2.text ++ interleaved parts last) := by
      simp [interleaved]
    rw [htext, uploadsIn_append_of_notMem hpart, uploadsIn_text_append, ih hparts, List.map_cons]

/-! ## The uploads of a script -/

/-- **The uploads of an instruction** are those of one scan of its action, and one of its
response. -/
theorem Instruction.exists_scans (i : Instruction) :
    ∃ inAction inResponse, Scan i.action.toList 0 inAction ∧ Scan i.response.toList 0 inResponse ∧
      i.uploads = (inAction ++ inResponse).map (·.2.upload) := by
  obtain ⟨inAction, haction⟩ := Scan.exists_scan i.action.toList 0
  obtain ⟨inResponse, hresponse⟩ := Scan.exists_scan i.response.toList 0
  refine ⟨inAction, inResponse, haction, hresponse, ?_⟩
  rw [uploads, List.map_append, ← haction.uploadsIn_eq, ← hresponse.uploadsIn_eq, List.drop_zero,
    List.drop_zero]

/-- The files that a step asks for. -/
def Step.uploads : Step → List Upload
  | .instruction i => i.uploads
  | .embed _ => []

/-- **The uploads of a script** are those of its steps, one after the other. -/
theorem Script.uploads_eq (s : Script) :
    s.uploads = (List.finRange s.steps.length).flatMap fun n =>
      s.steps[n].uploads.map fun u => (n.val, u) := by
  have hsteps : s.steps.zipIdx =
      (List.finRange s.steps.length).map fun n => (s.steps[n], n.val) :=
    List.ext_getElem (by simp) (by simp)
  rw [Script.uploads, hsteps, List.flatMap_map]
  refine List.flatMap_congr fun n _ => ?_
  cases s.steps[n] <;> rfl

/-- **The uploads are the leftmost placeholders, one behind the other.**  At a place of a text there
is one placeholder at most.  The uploads of an instruction are those that one scan finds in its
action, and then those that one finds in its response.  A text has no other scan, and what a scan
leaves out begins inside of something that it finds.  So where placeholders stand between texts
without opening braces, these and no others are found.  A script asks for the files of its steps,
each with the index of its step. -/
theorem uploads_exact :
    (∀ (text : List Char) (k : Nat) (p q : Placeholder),
      StandsAt text k p → StandsAt text k q → p = q) ∧
    (∀ i : Instruction, ∃ inAction inResponse,
      Scan i.action.toList 0 inAction ∧ Scan i.response.toList 0 inResponse ∧
        i.uploads = (inAction ++ inResponse).map (·.2.upload)) ∧
    (∀ (text : List Char) (found : List (Nat × Placeholder)), Scan text 0 found →
      (∀ found', Scan text 0 found' → found' = found) ∧
      ∀ k p, StandsAt text k p →
        (k, p) ∈ found ∨ ∃ e ∈ found, e.1 < k ∧ k < e.1 + e.2.text.length) ∧
    (∀ (i : Instruction) (parts parts' : List (List Char × Placeholder)) (last last' : List Char),
      i.action.toList = interleaved parts last → i.response.toList = interleaved parts' last' →
      (∀ part ∈ parts ++ parts', '\x7b' ∉ part.1) → '\x7b' ∉ last → '\x7b' ∉ last' →
        i.uploads = (parts ++ parts').map (·.2.upload)) ∧
    ∀ s : Script, s.uploads = (List.finRange s.steps.length).flatMap fun n =>
      s.steps[n].uploads.map fun u => (n.val, u) := by
  refine ⟨fun text k p q hp hq => hp.unique hq, Instruction.exists_scans, ?_, ?_, Script.uploads_eq⟩
  · intro text found hscan
    exact ⟨fun found' hscan' => hscan'.unique hscan,
      fun k p hp => hscan.mem_or_inside (Nat.zero_le k) hp⟩
  · intro i parts parts' last last' haction hresponse hparts hlast hlast'
    obtain ⟨hparts, hparts'⟩ := List.forall_mem_append.mp hparts
    rw [Instruction.uploads, haction, hresponse, uploadsIn_interleaved hparts hlast,
      uploadsIn_interleaved hparts' hlast', List.map_append]

/-- A placeholder whose path is written with blanks around it, and one in whose path another one
begins, which is not found. -/
theorem uploads_exact_nested :
    let p : Placeholder := ⟨.download, " a.csv ".toList, 1, 0, by decide, by decide⟩
    let q : Placeholder :=
      ⟨.screenshot, "\x7b\x7b file.download(x".toList, 0, 2, by decide, by decide⟩
    let inside : Placeholder := ⟨.download, ['x'], 1, 2, by decide, by decide⟩
    let i : Instruction :=
      { action := "Send \x7b\x7b file.download( a.csv )\x7d\x7d and " ++
          "\x7b\x7bfile.screenshot(\x7b\x7b file.download(x)  \x7d\x7d."
        response := "Sent?"
        redirect := true }
    i.action.toList = interleaved [("Send ".toList, p), (" and ".toList, q)] ['.'] ∧
      i.response.toList = interleaved [] "Sent?".toList ∧
      StandsAt i.action.toList 55 inside ∧
      i.uploads = [⟨.download, "a.csv"⟩, ⟨.screenshot, "\x7b\x7b file.download(x"⟩] := by
  intro p q inside i
  have haction : i.action.toList =
      interleaved [("Send ".toList, p), (" and ".toList, q)] ['.'] := by decide
  have hresponse : i.response.toList = interleaved [] "Sent?".toList := by decide
  have huploads := uploads_exact.2.2.2.1 i _ _ _ _ haction hresponse (by decide) (by decide)
    (by decide)
  have hinside : StandsAt i.action.toList 55 inside := by
    unfold StandsAt
    decide
  exact ⟨haction, hresponse, hinside, huploads.trans (by decide)⟩

end ScriptSuite
