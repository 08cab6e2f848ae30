import ScriptSuite.Script.Basic
import ScriptSuite.Text.Blank

/-!
# Script/Placeholder — the files that a step asks for

The text of an instruction may hold placeholders such as `{{ file.download(report.csv) }}`: two
braces, spaces, the kind of the file, its path in parentheses, spaces, and two braces.  The path is
not empty and ends at the first closing parenthesis.

`uploadsIn` goes through a text from the left.  Where a placeholder stands it is taken and the
search goes on behind it; elsewhere the search goes on one character further (`uploadsIn_eq`).  A
parenthesis that closes no placeholder rules out all that are open before it, so the search goes
on behind it at once, and takes time in proportion to the length of the text.
-/

namespace ScriptSuite

/-- What a file is used for. -/
inductive UploadKind where
  | download | screenshot
  deriving DecidableEq, Repr

/-- The name of a kind. -/
def UploadKind.name : UploadKind → String
  | .download => "download"
  | .screenshot => "screenshot"

/-- A local file that a step asks for. -/
structure Upload where
  kind : UploadKind
  path : String
  deriving DecidableEq, Repr

namespace Upload

/-- The kind at the beginning of a text, and what follows it. -/
def kind? (cs : List Char) : Option (UploadKind × List Char) :=
  [UploadKind.download, .screenshot].findSome? fun k =>
    (k.name.toList.isPrefixOf? cs).map fun rest => (k, rest)

/-- A text without the spaces in front of it; other blanks stay. -/
def skipSpaces (cs : List Char) : List Char := cs.dropWhile (· = ' ')

/-- **The opening** at the beginning of a text, up to the parenthesis in front of a path that is not
empty: its kind, and what follows. -/
def opening? : List Char → Option (UploadKind × List Char)
  | '\x7b' :: '\x7b' :: inner => do
    let body ← "file.".toList.isPrefixOf? (skipSpaces inner)
    let (kind, rest) ← kind? body
    match rest with
    | '(' :: ')' :: _ => none
    | '(' :: rest => some (kind, rest)
    | _ => none
  | _ => none

/-- A text up to its first closing parenthesis. -/
def pathOf (cs : List Char) : List Char := cs.takeWhile (· ≠ ')')

/-- A text behind its first closing parenthesis. -/
def behindPath (cs : List Char) : List Char := (cs.dropWhile (· ≠ ')')).tail

/-- What follows the end of a placeholder at the beginning of a text. -/
def closing? (cs : List Char) : Option (List Char) :=
  match skipSpaces cs with
  | '\x7d' :: '\x7d' :: rest => some rest
  | _ => none

/-- The upload of a placeholder. -/
def ofPath (kind : UploadKind) (path : List Char) : Upload :=
  ⟨kind, String.ofList (trimChars path)⟩

/-- **The placeholder at the beginning of a text**, and what follows it. -/
def at? (cs : List Char) : Option (Upload × List Char) :=
  match opening? cs with
  | none => none
  | some (kind, rest) =>
    (closing? (behindPath rest)).map fun after => (ofPath kind (pathOf rest), after)

/-! ### What is left of a text -/

/-- What is in front of the first closing parenthesis does not matter behind it. -/
theorem behindPath_append (pre : List Char) (h : ')' ∉ pre) (cs : List Char) :
    behindPath (pre ++ cs) = behindPath cs := by
  unfold behindPath
  rw [List.dropWhile_append_of_pos]
  intro c hc
  simpa using fun hcp : c = ')' => h (hcp ▸ hc)

theorem length_behindPath_le (cs : List Char) : (behindPath cs).length ≤ cs.length := by
  have := (List.dropWhile_sublist (l := cs) fun c => c ≠ ')').length_le
  simp only [behindPath, List.length_tail]
  omega

theorem length_skipSpaces_le (cs : List Char) : (skipSpaces cs).length ≤ cs.length :=
  (List.dropWhile_sublist _).length_le

theorem length_of_closing? {cs after : List Char} (h : closing? cs = some after) :
    after.length ≤ cs.length := by
  have hle := length_skipSpaces_le cs
  unfold closing? at h
  split at h
  · next heq =>
    cases h
    rw [heq] at hle
    simp only [List.length_cons] at hle
    omega
  · cases h

/-- The spaces in front of a text and what `skipSpaces` leaves of it. -/
theorem exists_replicate_append_skipSpaces (cs : List Char) :
    ∃ n, cs = List.replicate n ' ' ++ skipSpaces cs := by
  refine ⟨(cs.takeWhile (· = ' ')).length, ?_⟩
  have hspaces : cs.takeWhile (· = ' ') = List.replicate (cs.takeWhile (· = ' ')).length ' ' :=
    List.eq_replicate_of_mem fun c hc => by
      simpa using List.all_eq_true.mp List.all_takeWhile c hc
  rw [← hspaces]
  exact List.takeWhile_append_dropWhile.symm

theorem eq_of_isPrefixOf? {p cs rest : List Char} (h : p.isPrefixOf? cs = some rest) :
    cs = p ++ rest := by
  induction p generalizing cs with
  | nil => exact Option.some.inj (h : some cs = some rest)
  | cons x p ih =>
    cases cs with
    | nil => cases (h : none = some rest)
    | cons c cs =>
      change (if x == c then p.isPrefixOf? cs else none) = some rest at h
      split at h
      · next hx => rw [ih h, beq_iff_eq.mp hx, List.cons_append]
      · cases h

/-- A kind is its name in front of what follows. -/
theorem eq_of_kind? {cs rest : List Char} {k : UploadKind} (h : kind? cs = some (k, rest)) :
    cs = k.name.toList ++ rest := by
  obtain ⟨k', -, h⟩ := List.exists_of_findSome?_eq_some h
  obtain ⟨rest', h, heq⟩ := Option.map_eq_some_iff.mp h
  cases heq
  exact eq_of_isPrefixOf? h

/-- An opening, as it is written. -/
def openingText (n : Nat) (kind : UploadKind) : List Char :=
  '\x7b' :: '\x7b' :: (List.replicate n ' ' ++ ("file.".toList ++ (kind.name.toList ++ ['('])))

/-- No parenthesis is closed in an opening. -/
theorem notMem_openingText (n : Nat) (kind : UploadKind) : ')' ∉ openingText n kind := by
  cases kind <;> simp [openingText, UploadKind.name]

/-- **An opening** is its text in front of what follows, which closes no parenthesis at once. -/
theorem eq_openingText_append {cs rest : List Char} {kind : UploadKind}
    (h : opening? cs = some (kind, rest)) :
    (∃ n, cs = openingText n kind ++ rest) ∧ rest.head? ≠ some ')' := by
  unfold opening? at h
  split at h
  · next inner =>
    obtain ⟨body, hbody, h⟩ := Option.bind_eq_some_iff.mp h
    obtain ⟨⟨k, r⟩, hk, h⟩ := Option.bind_eq_some_iff.mp h
    have hbody := eq_of_isPrefixOf? hbody
    have hk := eq_of_kind? hk
    obtain ⟨n, hn⟩ := exists_replicate_append_skipSpaces inner
    dsimp only at h
    split at h
    · cases h
    · next r hhead _ =>
      cases h
      refine ⟨⟨n, ?_⟩, ?_⟩
      · rw [hn, hbody, hk]
        simp [openingText]
      · intro hr
        obtain ⟨t, rfl⟩ := List.head?_eq_some_iff.mp hr
        exact hhead t rfl
    · cases h
  · cases h

theorem length_of_opening? {cs rest : List Char} {k : UploadKind}
    (h : opening? cs = some (k, rest)) : rest.length < cs.length := by
  obtain ⟨⟨n, rfl⟩, -⟩ := eq_openingText_append h
  simp only [openingText, List.cons_append, List.length_cons, List.length_append]
  omega

theorem behindPath_of_opening? {c : Char} {cs rest : List Char} {k : UploadKind}
    (h : opening? (c :: cs) = some (k, rest)) : behindPath rest = behindPath cs := by
  obtain ⟨⟨n, heq⟩, -⟩ := eq_openingText_append h
  cases heq
  exact (behindPath_append _ (fun hmem => notMem_openingText n k (.tail _ hmem)) rest).symm

end Upload

/-- **The placeholders of a text**, from left to right. -/
def uploadsIn (cs : List Char) : List Upload :=
  match _h : Upload.opening? cs with
  | none =>
    match cs with
    | [] => []
    | _ :: cs => uploadsIn cs
  | some (kind, rest) =>
    match _hc : Upload.closing? (Upload.behindPath rest) with
    | none => uploadsIn (Upload.behindPath rest)
    | some after => Upload.ofPath kind (Upload.pathOf rest) :: uploadsIn after
termination_by cs.length
decreasing_by
  · simp
  · exact Nat.lt_of_le_of_lt (Upload.length_behindPath_le rest) (Upload.length_of_opening? _h)
  · exact Nat.lt_of_le_of_lt (Upload.length_of_closing? _hc)
      (Nat.lt_of_le_of_lt (Upload.length_behindPath_le rest) (Upload.length_of_opening? _h))

/-- A parenthesis that closes no placeholder rules out those that are open before it. -/
theorem uploadsIn_eq_behindPath (cs : List Char)
    (h : Upload.closing? (Upload.behindPath cs) = none) :
    uploadsIn cs = uploadsIn (Upload.behindPath cs) := by
  induction cs with
  | nil => rfl
  | cons c cs ih =>
    by_cases hc : c = ')'
    · subst hc
      rw [uploadsIn]
      rfl
    · have hb : Upload.behindPath (c :: cs) = Upload.behindPath cs :=
        Upload.behindPath_append [c] (by simpa using Ne.symm hc) cs
      rw [hb] at h ⊢
      rw [uploadsIn]
      split
      · exact ih h
      · next kind rest ho =>
        have hr := Upload.behindPath_of_opening? ho
        split
        · rw [hr]
        · next after ha =>
          rw [hr, h] at ha
          cases ha

/-- **The search from the left**: a placeholder where the text begins is taken, and otherwise the
search goes on one character further. -/
theorem uploadsIn_eq (cs : List Char) :
    uploadsIn cs =
      match Upload.at? cs with
      | some (u, rest) => u :: uploadsIn rest
      | none =>
        match cs with
        | [] => []
        | _ :: cs => uploadsIn cs := by
  cases cs with
  | nil =>
    rw [uploadsIn]
    rfl
  | cons c cs =>
    rw [uploadsIn]
    split
    · next ho => simp only [Upload.at?, ho]
    · next kind rest ho =>
      split
      · next hc =>
        have hr := Upload.behindPath_of_opening? ho
        simp only [Upload.at?, ho, hc, Option.map_none]
        rw [hr] at hc ⊢
        exact (uploadsIn_eq_behindPath cs hc).symm
      · next after ha => simp only [Upload.at?, ho, ha, Option.map_some]

/-- The files that an instruction asks for: those of its action, then those of its response. -/
def Instruction.uploads (i : Instruction) : List Upload :=
  uploadsIn i.action.toList ++ uploadsIn i.response.toList

/-- The files that a script asks for, each with the index of its step. -/
def Script.uploads (s : Script) : List (Nat × Upload) :=
  s.steps.zipIdx.flatMap fun
    | (.instruction i, n) => i.uploads.map fun u => (n, u)
    | (.embed _, _) => []

end ScriptSuite
