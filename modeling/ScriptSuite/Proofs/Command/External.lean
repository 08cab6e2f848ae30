import ScriptSuite.Proofs.Command.Verdict
import ScriptSuite.Proofs.Json.Layout
import ScriptSuite.Proofs.Json.Record
import ScriptSuite.Proofs.Text.Octets

/-!
# Proofs/Command/External — lists of scripts that are known elsewhere

A list of scripts that are known elsewhere is a document that may be written in many ways: members
in any order, other members among them, space between tokens, and keys and texts in any spelling
(`ExternalScript.Entry`).  Whatever the way, the list is read back as it is; and one object that
does not hold each of the two keys once makes the whole list be refused, so that no suite is checked
against a part of it (`Command.list_of_document`).
-/

namespace ScriptSuite

namespace ExternalScript

open Json

/-! ## Entries -/

/-- **An object for a script**: it holds the number and the id once each, and whatever else. -/
inductive Entry (x : ExternalScript) : Json → Prop
  | object {ms : List (List Char × Json)} {body : List Char}
      (hkeys : ∀ m ∈ ms, ∃ cs, Spells cs m.1) (hnumber : HoldsOnce ms "id" (int64 x.number))
      (hid : HoldsOnce ms "rfml_id" (string body)) (hspells : Spells x.id.toList body) :
      Entry x (object ms)

/-- **An object for no script**: it lacks one of the two keys, or repeats it. -/
inductive Defective : Json → Prop
  | lacks {ms : List (List Char × Json)} {name : String} (hname : name ∈ ["id", "rfml_id"])
      (h : Lacks name ms) : Defective (object ms)
  | repeats {ms : List (List Char × Json)} {name : String} (hname : name ∈ ["id", "rfml_id"])
      (h : Repeats name ms) : Defective (object ms)

variable {x : ExternalScript} {xs : List ExternalScript} {v : Json} {vs : List Json}

/-- The script of an object is read from it. -/
theorem Entry.ofJson?_eq (h : Entry x v) : ofJson? v = some x := by
  obtain ⟨hkeys, hnumber, hid, hspells⟩ := h
  have honce : ∀ name ∈ ["id", "rfml_id"], ∃ v, HoldsOnce _ name v :=
    List.forall_mem_cons.mpr ⟨⟨_, hnumber⟩, List.forall_mem_singleton.mpr ⟨_, hid⟩⟩
  obtain ⟨fs, hfs, hlookup⟩ := exists_fields?_of_holdsOnce hkeys honce
  have hfield : field? fs "id" Json.int64? = some x.number := by
    rw [field?, hlookup "id" (by decide) _ hnumber, Option.bind_some, int64?_int64]
  have hfield' : field? fs "rfml_id" Json.text? = some x.id := by
    rw [field?, hlookup "rfml_id" (by decide) _ hid, Option.bind_some, text?, hspells.unescape_eq,
      Option.map_some, String.ofList_toList]
  rw [ofJson?, hfs]
  simp only [Option.bind_eq_bind, Option.bind_some, hfield, hfield', Option.pure_def]

/-- No script is read from an object for none. -/
theorem Defective.ofJson?_eq (h : Defective v) (hsound : v.Sound) : ofJson? v = none := by
  cases h with
  | @repeats ms name hname h =>
    cases hsound with
    | object hbody _ => rw [ofJson?, fields?_of_repeats hbody hname h]; rfl
  | @lacks ms name hname h =>
    cases hsound with
    | object hbody _ =>
      rw [ofJson?]
      cases hfs : (object ms).fields? ["id", "rfml_id"] with
      | none => rfl
      | some fs =>
        simp only [List.mem_cons, List.not_mem_nil, or_false] at hname
        rcases hname with rfl | rfl
        · simp [field?_of_lacks hbody hfs h]
        · simp [field?_of_lacks hbody hfs h]

/-- **A list of entries** is read as it is. -/
theorem mapM_ofJson?_of_entries (h : List.Forall₂ Entry xs vs) : vs.mapM ofJson? = some xs := by
  induction h with
  | nil => rfl
  | cons hx _ ih => rw [List.mapM_cons, hx.ofJson?_eq, ih]; rfl

/-- **One object for no script** makes the whole list be refused. -/
theorem mapM_ofJson?_of_defective (hsound : ∀ v ∈ vs, v.Sound) (h : ∃ v ∈ vs, Defective v) :
    vs.mapM ofJson? = none := by
  obtain ⟨v, hv, hdefective⟩ := h
  obtain ⟨before, after, rfl⟩ := List.append_of_mem hv
  rw [List.mapM_append, List.mapM_cons, hdefective.ofJson?_eq (hsound v hv)]
  cases before.mapM ofJson? <;> rfl

variable {disk : Disk} {path s : String}

/-- The list in a file is that of its document. -/
theorem ofFile_of_document (hread : disk.read path = .ok (Utf8.encode s))
    (hdocument : Document (.array vs) s) :
    ofFile disk path = (vs.mapM ofJson?).elim (.error (.malformed path)) .ok := by
  have hlist : listOfText? s = vs.mapM ofJson? := by
    rw [listOfText?, read?_of_document hdocument, Option.bind_some, items?, Option.bind_some]
  simp only [ofFile, hread, Utf8.text?_eq_some_iff.mpr rfl, hlist]
  cases vs.mapM ofJson? <;> rfl

end ExternalScript

namespace Command

open ExternalScript Json

/-- **A list is read back as it is, or not at all.**  From a document of an array with an object for
each of some scripts, just these scripts are read; and if one object is for no script, then nothing
is read, and the command fails with the fault of the document, whatever the files of the suite. -/
theorem list_of_document {disk : Disk} {path s : String} {vs : List Json}
    (hread : disk.read path = .ok (Utf8.encode s)) (hdocument : Document (.array vs) s) :
    (∀ xs, List.Forall₂ Entry xs vs → ofFile disk path = .ok xs ∧
      readExternal disk (some path) = .ok (some xs)) ∧
    ((∃ v ∈ vs, Defective v) → ofFile disk path = .error (.malformed path) ∧
      ∀ env started finished files redirect requireTitle output,
        run env disk started finished (.validate files (some path) redirect requireTitle output) =
          .finish { exit := 2,
                    stderr := "error: " ++
                      (externalDiagnostic path (.malformed path)).userMessage ++ "\n" }) := by
  have hfile := ofFile_of_document hread hdocument
  constructor
  · intro xs hxs
    rw [mapM_ofJson?_of_entries hxs] at hfile
    exact ⟨hfile, by rw [readExternal, hfile]; rfl⟩
  · intro hdefective
    have hsound : ∀ v ∈ vs, v.Sound := by
      cases sound_of_document hdocument with
      | array h => exact h
    rw [mapM_ofJson?_of_defective hsound hdefective] at hfile
    have hexternal : readExternal disk (some path) =
        .error (externalDiagnostic path (.malformed path)) := by
      rw [readExternal, hfile]; rfl
    refine ⟨hfile, fun env started finished files redirect requireTitle output => ?_⟩
    rw [run, validate, hexternal]
    rfl

/-- An entry with an escaped key behind its id and a member that nobody asks for: it is read alone,
and nothing is read with an empty object behind it. -/
theorem list_of_document_escaped :
    let members := [("n".toList, Json.array []), ("rfml_id".toList, .string "a\\/".toList),
      ("\\u0069d".toList, .int64 (-7))]
    let known := (Json.array [.object members]).pretty
    let torn := (Json.array [.object members, .object []]).pretty
    let disk : Disk := fun path => .file (Utf8.encode (if path = "known" then known else torn))
    ofFile disk "known" = .ok [⟨-7, "a/"⟩] ∧
      readExternal disk (some "known") = .ok (some [⟨-7, "a/"⟩]) ∧
      ofFile disk "torn" = .error (.malformed "torn") := by
  intro members known torn disk
  have hn : Spells "n".toList "n".toList := spells_escape "n".toList
  have hrfml : Spells "rfml_id".toList "rfml_id".toList := spells_escape "rfml_id".toList
  have hid : Spells "id".toList "\\u0069d".toList :=
    @Spells.unit '0' '0' '6' '9' 0x69 _ _ rfl rfl rfl (spells_escape ['d'])
  have ha : Spells "a/".toList "a\\/".toList :=
    .plain (by decide) (by decide) (by decide) (@Spells.short '/' '/' _ _ rfl .nil)
  have hkeys : ∀ m ∈ members, ∃ cs, Spells cs m.1 :=
    List.forall_mem_cons.mpr ⟨⟨_, hn⟩, List.forall_mem_cons.mpr
      ⟨⟨_, hrfml⟩, List.forall_mem_singleton.mpr ⟨_, hid⟩⟩⟩
  have hbody : ∀ m ∈ members, Body m.1 := fun m hm => (hkeys m hm).choose_spec.isBody
  have honce : ∀ name ∈ ["id", "rfml_id"], ¬ Repeats name members :=
    (nodup_fields_iff hbody (by decide)).mp (by decide)
  have hentry : Entry ⟨-7, "a/"⟩ (.object members) :=
    .object hkeys ⟨⟨_, by simp [members], hid⟩, honce "id" (by decide)⟩
      ⟨⟨_, by simp [members], hrfml⟩, honce "rfml_id" (by decide)⟩ ha
  have hsound : (Json.object members).Sound :=
    .object hbody (List.forall_mem_cons.mpr ⟨.array (List.forall_mem_nil _),
      List.forall_mem_cons.mpr ⟨.string ha.isBody, List.forall_mem_singleton.mpr (sound_int _)⟩⟩)
  have hknown : Document (.array [.object members]) known :=
    document_pretty (.array (List.forall_mem_singleton.mpr hsound))
  have htorn : Document (.array [.object members, .object []]) torn :=
    document_pretty (.array (List.forall_mem_cons.mpr ⟨hsound, List.forall_mem_singleton.mpr
      (.object (List.forall_mem_nil _) (List.forall_mem_nil _))⟩))
  have hread := (@list_of_document disk "known" _ _ rfl hknown).1 _ (.cons hentry .nil)
  have hrefused := (@list_of_document disk "torn" _ _ rfl htorn).2
    ⟨.object [], by simp, .lacks (List.mem_cons_self ..) (List.forall_mem_nil _)⟩
  exact ⟨hread.1, hread.2, hrefused.1⟩

end Command

end ScriptSuite
