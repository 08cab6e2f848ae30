import ScriptSuite.Proofs.Json.Layout
import ScriptSuite.Script.Document

/-!
# Proofs/Script/Document — a script comes back from its document

Whatever its fields hold, the document of a script is JSON, and both the script and the files that
its steps ask for are read back from it (`Script.read_document`).  A field that is unset is left
out, which reading takes for unset again; the list of files is a member that a reader of the script
passes over.
-/

namespace ScriptSuite

namespace Json

/-! ## Lists and records -/

/-- What was written item by item is read item by item. -/
theorem mapM_map_eq_some {α β : Type} {f : α → β} {g : β → Option α} {l : List α}
    (h : ∀ a ∈ l, g (f a) = some a) : (l.map f).mapM g = some l := by
  induction l with
  | nil => rfl
  | cons a l ih =>
    obtain ⟨ha, hl⟩ := List.forall_mem_cons.mp h
    rw [List.map_cons, List.mapM_cons, ha, ih hl]
    rfl

@[simp] theorem texts?_texts (ss : List String) : (texts ss).texts? = some ss := by
  rw [texts, texts?, items?, Option.bind_some]
  exact mapM_map_eq_some fun s _ => text?_text s

variable {ms : List (String × Json)} {names : List String} {name : String}

/-- **The fields of a record** are its members with one of the names. -/
theorem fields?_record (h : (ms.map Prod.fst).Nodup) :
    (record ms).fields? names = some (ms.filter fun m => names.contains m.1) := by
  have hnamed : (ms.map fun m => (escape m.1.toList, m.2)).mapM
      (fun m => (unescape m.1).map fun key => (String.ofList key, m.2)) = some ms :=
    mapM_map_eq_some fun m _ => by rw [unescape_escape, Option.map_some, String.ofList_toList]
  rw [record, fields?, hnamed]
  exact if_pos (h.sublist (List.filter_sublist.map Prod.fst))

/-- A record of just these fields. -/
theorem fields?_record_self (hnames : ms.map Prod.fst = names) (h : names.Nodup) :
    (record ms).fields? names = some ms := by
  rw [fields?_record (hnames ▸ h), List.filter_eq_self.mpr]
  intro m hm
  rw [List.contains_iff_mem, ← hnames]
  exact List.mem_map_of_mem hm

theorem lookup_filter (h : name ∈ names) :
    (ms.filter fun m => names.contains m.1).lookup name = ms.lookup name := by
  induction ms with
  | nil => rfl
  | cons m ms ih =>
    obtain ⟨key, v⟩ := m
    by_cases hkey : name = key
    · subst hkey
      rw [List.filter_cons_of_pos (by simpa using h), List.lookup_cons_self, List.lookup_cons_self]
    · have hne : (name == key) = false := by simpa using hkey
      rw [List.lookup_cons, hne, ← ih]
      rw [List.filter_cons]
      split
      · rw [List.lookup_cons, hne]
      · rfl

theorem lookup_cons_eq (name key : String) (v : Json) (ms : List (String × Json)) :
    ((key, v) :: ms).lookup name = if name = key then some v else ms.lookup name := by
  rw [List.lookup_cons]
  by_cases h : name = key
  · rw [if_pos h, beq_iff_eq.mpr h]
  · rw [if_neg h, beq_eq_false_iff_ne.mpr h]

section Fields

variable {α : Type} {v : Json} {value? : Json → Option α}

theorem field?_of_lookup (h : ms.lookup name = some v) : field? ms name value? = value? v := by
  rw [field?, h, Option.bind_some]

theorem fieldOr_of_lookup (h : ms.lookup name = some v) (usual : α) :
    fieldOr ms name usual value? = value? v := by
  rw [fieldOr, h]

/-- **A field that may be unset** comes back, if what is written for a value is not null. -/
theorem fieldOrNull_of_lookup {toJson : α → Json} {a : Option α}
    (h : ms.lookup name = a.map toJson) (hnull : ∀ a, toJson a ≠ .null)
    (hvalue : ∀ a, value? (toJson a) = some a) : fieldOrNull ms name value? = some a := by
  rw [fieldOrNull, h]
  cases a with
  | none => rfl
  | some a =>
    rw [Option.map_some]
    split
    · rename_i hnone
      cases hnone
    · rename_i hsome
      exact absurd (Option.some.inj hsome) (hnull a)
    · rename_i v _ hv
      rw [← Option.some.inj hv, hvalue, Option.map_some]

end Fields

/-- A case with a value. -/
theorem case?_record (name : String) (v : Json) :
    (record [(name, v)]).case? = some (name, some v) := by
  change (unescape (escape name.toList)).map _ = _
  rw [unescape_escape, Option.map_some, String.ofList_toList]

/-- A case that is a name alone. -/
theorem case?_text (name : String) : (text name).case? = some (name, none) := by
  change (text name).text?.map _ = _
  rw [text?_text, Option.map_some]

theorem bareCase?_text (name : String) : (text name).bareCase? = some name := by
  rw [bareCase?, case?_text]

end Json

open Json

/-! ## Parts of a script -/

theorem Script.Feature.ofJson?_toJson (f : Script.Feature) : ofJson? f.toJson = some f := by
  cases f with
  | assigned id =>
    rw [toJson, ofJson?, case?_record]
    change (Json.int64 id).int64?.map _ = _
    rw [int64?_int64, Option.map_some]
  | cleared =>
    rw [toJson, ofJson?, case?_text]
    rfl

theorem Step.unescapesTo_escape (key : String) :
    Step.kind?.unescapesTo (escape key.toList) = decide (key = "type") := by
  rw [Step.kind?.unescapesTo, unescape_escape, Bool.eq_iff_iff, beq_iff_eq, Option.some.injEq,
    String.toList_inj, decide_eq_true_iff]

/-- **The kind of a step** is read apart from its fields. -/
theorem Step.kind?_record (kind : String) {ms : List (String × Json)}
    (h : ∀ m ∈ ms, m.1 ≠ "type") :
    Step.kind? (.record (("type", .text kind) :: ms)) = some (kind, .record ms) := by
  generalize hrest : (ms.map fun m => (escape m.1.toList, m.2)) = rest
  have hother : ∀ m ∈ rest, Step.kind?.unescapesTo m.1 = false := by
    rw [← hrest]
    refine List.forall_mem_map.mpr fun m hm => ?_
    rw [unescapesTo_escape]
    exact decide_eq_false (h m hm)
  have htype : Step.kind?.unescapesTo (escape "type".toList) = true := unescapesTo_escape "type"
  have hkinds : ((escape "type".toList, text kind) :: rest).filter
      (fun m => kind?.unescapesTo m.1) = [(escape "type".toList, text kind)] := by
    rw [List.filter_cons, if_pos htype,
      List.filter_eq_nil_iff.mpr fun m hm => by simp [hother m hm]]
  have hfields : ((escape "type".toList, text kind) :: rest).filter
      (fun m => !kind?.unescapesTo m.1) = rest := by
    rw [List.filter_cons,
      if_neg (by simp only [htype, Bool.not_true, Bool.false_eq_true, not_false_iff]),
      List.filter_eq_self.mpr fun m hm => by simp [hother m hm]]
  rw [Json.record, Json.record, List.map_cons, hrest, Step.kind?]
  dsimp only
  rw [hkinds, hfields]
  dsimp only
  rw [text?_text]
  rfl

/-- **A step comes back** from its record. -/
theorem Step.ofJson?_toJson (step : Step) : ofJson? step.toJson = some step := by
  cases step with
  | instruction i =>
    rw [toJson, ofJson?, Step.kind?_record _ (by simp)]
    change (Json.fields? _ _).bind _ = _
    rw [fields?_record_self (by rfl) (by decide)]
    simp [field?, lookup_cons_eq, bool?]
  | embed e =>
    rw [toJson, ofJson?, Step.kind?_record _ (by simp)]
    change (Json.fields? _ _).bind _ = _
    rw [fields?_record_self (by rfl) (by decide)]
    simp [field?, lookup_cons_eq, bool?]

/-! ## Uploads -/

/-- The kind of a file with a name. -/
def UploadKind.ofName? (s : String) : Option UploadKind :=
  [download, screenshot].find? (·.name = s)

/-- A file that a step asks for, as a value describes it. -/
def Upload.ofJson? (v : Json) : Option (Nat × Upload) := do
  let fs ← v.fields? ["step_index", "kind", "path"]
  return (← field? fs "step_index" nat?,
    ⟨← field? fs "kind" fun v => v.text?.bind UploadKind.ofName?, ← field? fs "path" text?⟩)

/-- **The files that a document lists.** -/
def Script.uploadsOfJson? (v : Json) : Option (List (Nat × Upload)) := do
  let fs ← v.fields? ["uploadable_files"]
  field? fs "uploadable_files" fun v => v.items?.bind fun vs => vs.mapM Upload.ofJson?

theorem UploadKind.ofName?_name (kind : UploadKind) : ofName? kind.name = some kind := by
  cases kind <;> decide

theorem Upload.ofJson?_uploadJson (u : Nat × Upload) : ofJson? (Script.uploadJson u) = some u := by
  rw [ofJson?, Script.uploadJson, fields?_record_self (by rfl) (by decide)]
  simp [field?, lookup_cons_eq, UploadKind.ofName?_name]

/-! ## Scripts -/

namespace Script

variable {s : Script}

/-- The members of the document of a script. -/
def documentMembers (s : Script) : List (String × Json) :=
  s.members ++ [("uploadable_files", .array (s.uploads.map uploadJson))]

theorem document_eq (s : Script) : s.document = .record s.documentMembers := rfl

theorem keys_optional {α : Type} (name : String) (toJson : α → Json) (a : Option α) :
    ((optional name toJson a).map Prod.fst).Sublist [name] := by
  cases a with
  | none => exact List.nil_sublist _
  | some a => exact List.Sublist.refl _

/-- **No key occurs twice** in the document of a script. -/
theorem nodup_documentMembers (s : Script) : (s.documentMembers.map Prod.fst).Nodup := by
  have hsublist :
      (s.documentMembers.map Prod.fst).Sublist (fieldNames ++ ["uploadable_files"]) := by
    simp only [documentMembers, members, List.map_append]
    exact (((((List.Sublist.refl _).append (keys_optional ..)).append (keys_optional ..)).append
      (List.Sublist.refl _)).append (keys_optional ..)).append (List.Sublist.refl _) |>.append
        (List.Sublist.refl _)
  exact List.Nodup.sublist hsublist (by decide)

theorem lookup_optional {α : Type} (name key : String) (toJson : α → Json) (a : Option α) :
    (optional key toJson a).lookup name = if name = key then a.map toJson else none := by
  cases a with
  | none => simp [optional]
  | some a => rw [optional, lookup_cons_eq, List.lookup_nil, Option.map_some]

theorem Feature.toJson_ne_null (f : Feature) : f.toJson ≠ .null := by
  cases f <;> exact Json.noConfusion

/-- What stands under the keys that a reader of the script asks for. -/
structure Fields (fs : List (String × Json)) (s : Script) : Prop where
  id : fs.lookup "id" = some (.text s.id)
  title : fs.lookup "title" = some (.text s.title)
  startUri : fs.lookup "start_uri" = some (.text s.startUri)
  siteId : fs.lookup "site_id" = s.siteId.map .int64
  feature : fs.lookup "feature_id" = s.feature.map Feature.toJson
  state : fs.lookup "state" = some (.text s.state.name)
  execute : fs.lookup "execute" = some (.bool s.execute)
  priority : fs.lookup "priority" = s.priority.map fun p => .text p.name
  tags : fs.lookup "tags" = some (.texts s.tags)
  browsers : fs.lookup "browsers" = some (.texts s.browsers)
  description : fs.lookup "description" = some (.text s.description)
  steps : fs.lookup "steps" = some (.array (s.steps.map Step.toJson))
  location : fs.lookup "source_location" = some (.text s.location)

theorem fields_documentMembers (s : Script) :
    Fields (s.documentMembers.filter fun m => fieldNames.contains m.1) s := by
  have hlookup : ∀ name ∈ fieldNames,
      (s.documentMembers.filter fun m => fieldNames.contains m.1).lookup name =
        s.documentMembers.lookup name := fun name hname => lookup_filter hname
  constructor <;> rw [hlookup _ (by decide)] <;>
    simp [documentMembers, members, List.lookup_append, lookup_optional, lookup_cons_eq]

/-- **A script comes back** from its document. -/
theorem ofJson?_document (s : Script) : ofJson? s.document = some s := by
  have h := s.fields_documentMembers
  rw [ofJson?, document_eq, fields?_record s.nodup_documentMembers]
  generalize (s.documentMembers.filter fun m => fieldNames.contains m.1) = fs at h
  have hsiteId : fieldOrNull fs "site_id" Json.int64? = some s.siteId :=
    fieldOrNull_of_lookup h.siteId (fun _ => Json.noConfusion) int64?_int64
  have hfeature : fieldOrNull fs "feature_id" Feature.ofJson? = some s.feature :=
    fieldOrNull_of_lookup h.feature Feature.toJson_ne_null Feature.ofJson?_toJson
  have hpriority : fieldOrNull fs "priority" (fun v => v.bareCase?.bind Priority.ofName?) =
      some s.priority :=
    fieldOrNull_of_lookup h.priority (fun _ => Json.noConfusion) fun p => by
      rw [bareCase?_text, Option.bind_some, Priority.ofName?_name]
  have hsteps : (s.steps.map Step.toJson).mapM Step.ofJson? = some s.steps :=
    mapM_map_eq_some fun step _ => step.ofJson?_toJson
  have hstate : (Json.text s.state.name).bareCase?.bind State.ofName? = some s.state := by
    rw [bareCase?_text, Option.bind_some, State.ofName?_name]
  refine Option.bind_eq_some_iff.mpr ⟨fs, rfl, ?_⟩
  refine Option.bind_eq_some_iff.mpr ⟨_, (field?_of_lookup h.id).trans (text?_text _), ?_⟩
  refine Option.bind_eq_some_iff.mpr ⟨_, (fieldOr_of_lookup h.title _).trans (text?_text _), ?_⟩
  refine Option.bind_eq_some_iff.mpr ⟨_, (field?_of_lookup h.startUri).trans (text?_text _), ?_⟩
  refine Option.bind_eq_some_iff.mpr ⟨_, hsiteId, ?_⟩
  refine Option.bind_eq_some_iff.mpr ⟨_, hfeature, ?_⟩
  refine Option.bind_eq_some_iff.mpr ⟨_, (field?_of_lookup h.state).trans hstate, ?_⟩
  refine Option.bind_eq_some_iff.mpr ⟨_, field?_of_lookup h.execute, ?_⟩
  refine Option.bind_eq_some_iff.mpr ⟨_, hpriority, ?_⟩
  refine Option.bind_eq_some_iff.mpr ⟨_, (fieldOr_of_lookup h.tags _).trans (texts?_texts _), ?_⟩
  refine Option.bind_eq_some_iff.mpr
    ⟨_, (fieldOr_of_lookup h.browsers _).trans (texts?_texts _), ?_⟩
  refine Option.bind_eq_some_iff.mpr
    ⟨_, (fieldOr_of_lookup h.description _).trans (text?_text _), ?_⟩
  refine Option.bind_eq_some_iff.mpr ⟨_, (field?_of_lookup h.steps).trans hsteps, ?_⟩
  exact Option.bind_eq_some_iff.mpr ⟨_, (fieldOr_of_lookup h.location _).trans (text?_text _), rfl⟩

/-- **The files that the steps ask for** come back from the document. -/
theorem uploadsOfJson?_document (s : Script) : uploadsOfJson? s.document = some s.uploads := by
  have hlookup : (s.documentMembers.filter fun m => ["uploadable_files"].contains m.1).lookup
      "uploadable_files" = some (.array (s.uploads.map uploadJson)) := by
    rw [lookup_filter (by decide)]
    simp [documentMembers, members, List.lookup_append, lookup_optional, lookup_cons_eq]
  have huploads : (s.uploads.map uploadJson).mapM Upload.ofJson? = some s.uploads :=
    mapM_map_eq_some fun u _ => Upload.ofJson?_uploadJson u
  rw [uploadsOfJson?, document_eq, fields?_record s.nodup_documentMembers]
  exact Option.bind_eq_some_iff.mpr ⟨_, rfl, (field?_of_lookup hlookup).trans huploads⟩

/-! ## Soundness -/

theorem sound_optional {α : Type} (name : String) {toJson : α → Json} (h : ∀ a, Sound (toJson a))
    (a : Option α) : ∀ m ∈ optional name toJson a, Sound m.2 := by
  cases a with
  | none => exact List.forall_mem_nil _
  | some a => exact List.forall_mem_singleton.mpr (h a)

theorem Feature.sound_toJson (f : Feature) : Sound f.toJson := by
  cases f with
  | assigned id => exact sound_record (List.forall_mem_singleton.mpr (sound_int id.toInt))
  | cleared => exact sound_text _

theorem sound_stepJson (step : Step) : Sound step.toJson := by
  cases step <;> exact sound_record (by simp [sound_text, Sound.bool])

theorem sound_uploadJson (u : Nat × Upload) : Sound (uploadJson u) :=
  sound_record (by simp [sound_text, Json.nat, sound_int])

theorem sound_members (s : Script) : ∀ m ∈ s.members, Sound m.2 := by
  have hsiteId := sound_optional "site_id" (fun id : Int64 => sound_int id.toInt) s.siteId
  have hfeature := sound_optional "feature_id" Feature.sound_toJson s.feature
  have hpriority := sound_optional "priority" (fun p : Priority => sound_text p.name) s.priority
  have hsteps : Sound (.array (s.steps.map Step.toJson)) :=
    .array (List.forall_mem_map.mpr fun step _ => sound_stepJson step)
  simp only [members, List.forall_mem_append, List.forall_mem_cons, List.not_mem_nil,
    IsEmpty.forall_iff, implies_true, and_true]
  exact ⟨⟨⟨⟨⟨⟨sound_text _, sound_text _, sound_text _⟩, hsiteId⟩, hfeature⟩, sound_text _,
    .bool _⟩, hpriority⟩, sound_texts _, sound_texts _, sound_text _, hsteps, sound_text _⟩

/-- **The document of a script** has well-formed literals only. -/
theorem sound_document (s : Script) : Sound s.document := by
  refine sound_record (List.forall_mem_append.mpr ⟨s.sound_members, ?_⟩)
  exact List.forall_mem_singleton.mpr
    (.array (List.forall_mem_map.mpr fun u _ => sound_uploadJson u))

/-- **A script is read back from its document**, whatever its fields hold.  The document is JSON;
reading it as a script, which passes over the list of files, gives the script; and the list gives
the files that the steps ask for, in their order. -/
theorem read_document (s : Script) :
    Json.Document s.document s.document.pretty ∧
      (Json.read? s.document.pretty).bind ofJson? = some s ∧
      (Json.read? s.document.pretty).bind uploadsOfJson? = some s.uploads := by
  have hdocument := document_pretty s.sound_document
  have hread := read?_of_document hdocument
  refine ⟨hdocument, ?_, ?_⟩
  · rw [hread, Option.bind_some, s.ofJson?_document]
  · rw [hread, Option.bind_some, s.uploadsOfJson?_document]

end Script

end ScriptSuite
