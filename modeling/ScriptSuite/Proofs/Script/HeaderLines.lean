import ScriptSuite.Proofs.Script.Grammar

/-!
# Proofs/Script/HeaderLines — what the header lines so far have set

A draft holds what the header lines so far say, and nothing else (`Draft.Tells`); every line that is
read keeps it so, whatever the line is (`Tells.reads`).
-/

namespace ScriptSuite

open Header Grammar

namespace Line

variable {l : Line} {ls : List Line} {key : Key}

theorem lastValue_snoc : lastValue key (ls ++ [l]) = (l.value? key).or (lastValue key ls) := by
  rw [lastValue, List.filterMap_append, List.getLast?_append, lastValue]
  cases hl : l.value? key <;> simp [hl]

/-- A header line has a value for its own key alone. -/
theorem value?_of_header {key' : Key} {value : String} (hl : l.kind = .header key'.name value) :
    l.value? key = if key' = key then some value else none := by
  simp only [value?, hl, Key.name_inj]

theorem value?_of_unknown {name value : String} (hl : l.kind = .header name value)
    (hname : Key.ofName? name = none) : l.value? key = none := by
  have hne : name ≠ key.name := by
    rintro rfl
    rw [Key.ofName?_name] at hname
    exact absurd hname (by simp)
  simp only [value?, hl, if_neg hne]

end Line

/-- What a value sets is held under its key, and nothing else changes. -/
theorem Script.held?_set {s : Script} {key key' : Key} {value : String} {entry : Entry}
    (hmeans : Means key value entry) (hkey : key' ≠ .redirect) :
    (s.set entry).held? key' = if key = key' then some entry else s.held? key' := by
  cases hmeans <;> cases key' <;> first | rfl | exact absurd rfl hkey

theorem Script.set_eq (s : Script) (entry : Entry) : (s.set entry).id = s.id ∧
    (s.set entry).description = s.description ∧ (s.set entry).location = s.location := by
  cases entry <;> exact ⟨rfl, rfl, rfl⟩

theorem Draft.put_eq (d : Draft) (entry : Entry) : (d.put entry).script = d.script.set entry ∧
    (d.put entry).named = d.named ∧ (d.put entry).block = d.block ∧
      (d.put entry).steps = d.steps := by
  cases entry <;> exact ⟨rfl, rfl, rfl, rfl⟩

namespace Draft

/-! ## Header lines -/

/-- **What the header lines so far have set.** -/
structure Tells (ls : List Line) (d : Draft) : Prop where
  id : ls.filterMap Line.identity? = if d.named then [d.script.id] else []
  id_ne_empty : d.named = true → d.script.id ≠ ""
  values : ∀ l ∈ ls, ∀ (key : Key) (value : String), l.kind = .header key.name value →
    ∃ entry, Means key value entry
  entries : ∀ key, key ≠ .redirect →
    Holds ls key (({ id := "" } : Script).held? key) (d.script.held? key)
  description : d.script.description =
    String.join ((ls.filter Line.isDescription).map fun l => l.body ++ "\n")
  location : d.script.location = ""

variable {o : Script.Options} {d d' : Draft} {l : Line} {ls : List Line}

theorem Tells.empty : Tells [] {} where
  id := rfl
  id_ne_empty := by simp
  values := by simp
  entries := fun key _ => rfl
  description := rfl
  location := rfl

theorem holds_snoc_of_eq_none {key : Key} {usual e : Option Entry} (hl : l.value? key = none) :
    Holds (ls ++ [l]) key usual e ↔ Holds ls key usual e := by
  rw [Holds, Line.lastValue_snoc, hl, Option.none_or, Holds]

theorem holds_snoc_of_header {key key' : Key} {value : String} {usual e : Option Entry}
    (hl : l.kind = .header key.name value) : Holds (ls ++ [l]) key' usual e ↔
      if key = key' then ∃ entry, Means key' value entry ∧ e = some entry
      else Holds ls key' usual e := by
  rw [Holds, Line.lastValue_snoc, Line.value?_of_header hl]
  split_ifs
  · rfl
  · rw [Option.none_or, Holds]

/-- A line that is neither an identity nor a value at most adds to the description. -/
theorem Tells.snoc (h : Tells ls d) (hidentity : l.identity? = none)
    (hvalue : ∀ key, l.value? key = none) (hnamed : d'.named = d.named)
    (hscript : d'.script = { d.script with description :=
      d.script.description ++ if l.isDescription then l.body ++ "\n" else "" }) :
    Tells (ls ++ [l]) d' where
  id := by
    rw [List.filterMap_append, h.id, hnamed, hscript]
    simp [hidentity]
  id_ne_empty := by
    rw [hnamed, hscript]
    exact h.id_ne_empty
  values := by
    intro l' hl' key value hkind
    rcases List.mem_append.mp hl' with hl' | hl'
    · exact h.values l' hl' key value hkind
    · rw [List.mem_singleton.mp hl'] at hkind
      have hnone := hvalue key
      rw [Line.value?_of_header hkind, if_pos rfl] at hnone
      exact absurd hnone (by simp)
  entries := by
    intro key hkey
    have hentry : d'.script.held? key = d.script.held? key := by rw [hscript]; cases key <;> rfl
    rw [holds_snoc_of_eq_none (hvalue key), hentry]
    exact h.entries key hkey
  description := by
    rw [hscript, List.filter_append, List.map_append, String.join_append, ← h.description]
    cases hl : l.isDescription <;> simp [hl]
  location := by
    rw [hscript]
    exact h.location

/-- A line that is no header line tells nothing. -/
theorem Tells.snoc_of_kind (h : Tells ls d)
    (hl : l.kind = .content ∨ (∃ target, l.kind = .dash target) ∨ l.kind = .blank ∨
      l.kind = .endOfText)
    (hnamed : d'.named = d.named) (hscript : d'.script = d.script) : Tells (ls ++ [l]) d' := by
  have hdescription : l.isDescription = false := by
    rcases hl with hl | ⟨_, hl⟩ | hl | hl <;> simp [Line.isDescription, hl]
  refine h.snoc ?_ (fun key => ?_) hnamed ?_
  · rcases hl with hl | ⟨_, hl⟩ | hl | hl <;> simp [Line.identity?, hl]
  · rcases hl with hl | ⟨_, hl⟩ | hl | hl <;> simp [Line.value?, hl]
  · simp [hdescription, hscript]

theorem Tells.identity (h : Tells ls d) {id : String} (hl : l.kind = .identity id)
    (hnew : d.named = false) (hid : id ≠ "") :
    Tells (ls ++ [l]) { d with named := true, script := { d.script with id := id } } where
  id := by
    have hnone := h.id
    rw [hnew] at hnone
    rw [List.filterMap_append, hnone]
    simp [Line.identity?, hl]
  id_ne_empty := fun _ => hid
  values := by
    intro l' hl' key value hkind
    rcases List.mem_append.mp hl' with hl' | hl'
    · exact h.values l' hl' key value hkind
    · rw [List.mem_singleton.mp hl', hl] at hkind
      exact absurd hkind (by simp)
  entries := by
    intro key hkey
    have hentry : ({ d.script with id := id } : Script).held? key = d.script.held? key := by
      cases key <;> rfl
    rw [holds_snoc_of_eq_none (by simp [Line.value?, hl]), hentry]
    exact h.entries key hkey
  description := by
    rw [List.filter_append, List.map_append, String.join_append, ← h.description]
    simp [Line.isDescription, hl]
  location := h.location

theorem Tells.value (h : Tells ls d) {key : Key} {value : String} {entry : Entry}
    (hl : l.kind = .header key.name value) (hmeans : Means key value entry) :
    Tells (ls ++ [l]) (d.put entry) := by
  obtain ⟨hscript, hnamed, -, -⟩ := d.put_eq entry
  obtain ⟨hid, hdescription, hlocation⟩ := d.script.set_eq entry
  refine ⟨?_, ?_, fun l' hl' key' value' hkind => ?_, fun key' hkey => ?_, ?_, ?_⟩
  · rw [List.filterMap_append, h.id, hnamed, hscript, hid]
    simp [Line.identity?, hl]
  · rw [hnamed, hscript, hid]
    exact h.id_ne_empty
  · rcases List.mem_append.mp hl' with hl' | hl'
    · exact h.values l' hl' key' value' hkind
    · rw [List.mem_singleton.mp hl', hl, Line.Kind.header.injEq] at hkind
      obtain ⟨hname, rfl⟩ := hkind
      exact ⟨entry, Key.name_inj.mp hname ▸ hmeans⟩
  · rw [holds_snoc_of_header hl, hscript, Script.held?_set hmeans hkey]
    split_ifs with hsame
    · exact ⟨entry, hsame ▸ hmeans, rfl⟩
    · exact h.entries key' hkey
  · rw [hscript, hdescription, List.filter_append, List.map_append, String.join_append,
      ← h.description]
    simp [Line.isDescription, hl]
  · rw [hscript, hlocation]
    exact h.location

/-- **Each line keeps** what is told. -/
theorem Tells.reads (h : Tells ls d) (hread : Reads o d l d') : Tells (ls ++ [l]) d' := by
  cases hread with
  | identity hl hnew hid => exact h.identity hl hnew hid
  | value hl hmeans => exact h.value hl hmeans
  | unknown hl hkey =>
    refine h.snoc (by simp [Line.identity?, hl]) (fun key => Line.value?_of_unknown hl hkey) rfl ?_
    simp [describe, Line.isDescription, hl, hkey, String.append_assoc]
  | remark hl =>
    refine h.snoc (by simp [Line.identity?, hl]) (by simp [Line.value?, hl]) rfl ?_
    simp [describe, Line.isDescription, hl, String.append_assoc]
  | embed hl hblock => exact h.snoc_of_kind (.inr (.inl ⟨_, hl⟩)) rfl rfl
  | action hl hblock => exact h.snoc_of_kind (.inl hl) rfl rfl
  | response hl hblock hquestion => exact h.snoc_of_kind (by tauto) rfl rfl
  | close hl hblock => exact h.snoc_of_kind (by tauto) rfl rfl
  | skip hl hblock => exact h.snoc_of_kind (by tauto) rfl rfl

/-- The end of the text tells nothing. -/
theorem Tells.of_snoc_endOfText (h : Tells (ls ++ [l]) d) (hl : l.kind = .endOfText) :
    Tells ls d where
  id := by simpa [Line.identity?, hl] using h.id
  id_ne_empty := h.id_ne_empty
  values := fun l' hl' => h.values l' (List.mem_append_left _ hl')
  entries := fun key hkey =>
    (holds_snoc_of_eq_none (by simp [Line.value?, hl])).mp (h.entries key hkey)
  description := by simpa [Line.isDescription, hl] using h.description
  location := h.location

theorem Tells.readLines {e : Draft} {before : List Line} (h : Tells before d)
    (hread : d.readLines o ls = .ok e) : Tells (before ++ ls) e := by
  induction ls generalizing d before with
  | nil =>
    rw [List.append_nil, ← Except.ok.inj hread]
    exact h
  | cons l ls ih =>
    obtain ⟨d', hl, hrest⟩ := readLines_cons_eq_ok_iff.mp hread
    have hls := ih (h.reads hl) hrest
    rwa [List.append_assoc, List.singleton_append] at hls

end Draft

end ScriptSuite
