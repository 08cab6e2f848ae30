import ScriptSuite.Proofs.Text.Cutting
import ScriptSuite.Proofs.Text.Numerals
import ScriptSuite.Proofs.Text.Trimming
import ScriptSuite.Script.Header

/-!
# Proofs/Script/Values — what the value of a header line means

For each key, which values it takes and what they set (`Header.Means`); reading a value gives
exactly that (`Header.read_eq_ok_iff`).  The items of a list are separated by commas, and a list of
items that is written down is read back (`Header.listItems_intercalate`).
-/

namespace ScriptSuite

/-! ## Names -/

/-- Looking a name up gives what has it, when names are different. -/
theorem find?_name_eq_some_iff {α : Type} {name : α → String} {all : List α} (hall : ∀ a, a ∈ all)
    (hname : ∀ a b, name a = name b → a = b) {s : String} {a : α} :
    (all.find? fun b => decide (name b = s)) = some a ↔ s = name a := by
  constructor
  · intro h
    have hs := List.find?_some h
    exact (of_decide_eq_true hs).symm
  · rintro rfl
    cases hfind : all.find? fun b => decide (name b = name a) with
    | none =>
      have hnone := List.find?_eq_none.mp hfind a (hall a)
      exact absurd (decide_eq_true rfl) hnone
    | some b =>
      have hb := List.find?_some hfind
      rw [hname b a (of_decide_eq_true hb)]

theorem Header.Key.name_inj {a b : Key} : a.name = b.name ↔ a = b :=
  ⟨fun h => Option.some.inj (by rw [← ofName?_name a, h, ofName?_name]), congrArg name⟩

theorem Header.Key.ofName?_eq_some_iff {s : String} {key : Key} :
    ofName? s = some key ↔ s = key.name :=
  find?_name_eq_some_iff (fun key => by cases key <;> decide) fun _ _ => name_inj.mp

namespace Script

theorem State.ofName?_eq_some_iff {s : String} {state : State} :
    ofName? s = some state ↔ s = state.name :=
  find?_name_eq_some_iff (fun state => by cases state <;> decide)
    (fun a b h => Option.some.inj (by rw [← ofName?_name a, h, ofName?_name b]))

theorem Priority.ofName?_eq_some_iff {s : String} {p : Priority} :
    ofName? s = some p ↔ s = p.name :=
  find?_name_eq_some_iff (fun p => by cases p <;> decide)
    (fun a b h => Option.some.inj (by rw [← ofName?_name a, h, ofName?_name b]))

/-! ## Priorities in either case -/

theorem toNat_toUpper (c : Char) :
    c.toUpper.toNat = if 97 ≤ c.toNat ∧ c.toNat ≤ 122 then c.toNat - 32 else c.toNat := by
  have hrange : ('a'.val ≤ c.val ∧ c.val ≤ 'z'.val) ↔ 97 ≤ c.toNat ∧ c.toNat ≤ 122 := by
    rw [UInt32.le_iff_toNat_le, UInt32.le_iff_toNat_le]
    rfl
  delta Char.toUpper
  split
  · rename_i h
    rw [hrange] at h
    rw [if_pos h]
    change (c.val + ('A'.val - 'a'.val)).toNat = _
    rw [UInt32.toNat_add]
    change (c.toNat + 4294967264) % 4294967296 = _
    omega
  · rename_i h
    rw [hrange] at h
    rw [if_neg h]

/-- A letter `P` in either case, and a character that comes before the letters. -/
theorem map_toUpper_eq_iff {cs : List Char} {d : Char} (hd : d.toNat < 65) :
    cs.map Char.toUpper = ['P', d] ↔ cs = ['P', d] ∨ cs = ['p', d] := by
  have hP : 'P'.toNat = 80 := rfl
  have hp : 'p'.toNat = 112 := rfl
  have hletter : ∀ c : Char, c.toUpper = 'P' ↔ c = 'P' ∨ c = 'p' := by
    intro c
    rw [← Char.toNat_inj, ← Char.toNat_inj, ← Char.toNat_inj, toNat_toUpper, hP, hp]
    split <;> omega
  have hdigit : ∀ c : Char, c.toUpper = d ↔ c = d := by
    intro c
    rw [← Char.toNat_inj, ← Char.toNat_inj, toNat_toUpper]
    split <;> omega
  rcases cs with _ | ⟨c, _ | ⟨e, _ | ⟨_, _⟩⟩⟩
  · simp
  · simp
  · simp [hletter, hdigit, or_and_right]
  · simp

/-- The two ways to write a priority. -/
def Priority.spellings : Priority → List String
  | p1 => ["P1", "p1"]
  | p2 => ["P2", "p2"]
  | p3 => ["P3", "p3"]

theorem Priority.ne_empty_of_mem {s : String} {p : Priority} (h : s ∈ p.spellings) : s ≠ "" := by
  rintro rfl
  cases p <;> exact absurd h (by decide)

theorem Priority.ofAnyCase?_eq_some_iff {s : String} {p : Priority} :
    ofAnyCase? s = some p ↔ s ∈ p.spellings := by
  rw [ofAnyCase?, ofName?_eq_some_iff, ← String.toList_inj, String.toList_ofList]
  cases p with
  | p1 =>
    refine (map_toUpper_eq_iff (d := '1') (by decide)).trans ?_
    simp [spellings, ← String.toList_inj]
  | p2 =>
    refine (map_toUpper_eq_iff (d := '2') (by decide)).trans ?_
    simp [spellings, ← String.toList_inj]
  | p3 =>
    refine (map_toUpper_eq_iff (d := '3') (by decide)).trans ?_
    simp [spellings, ← String.toList_inj]

end Script

/-! ## Booleans -/

/-- The ways to write a boolean. -/
def spellings : Bool → List String
  | true => ["true", "True", "TRUE", "t", "T", "1"]
  | false => ["false", "False", "FALSE", "f", "F", "0"]

theorem boolOfText?_eq_some_iff {s : String} {b : Bool} :
    boolOfText? s = some b ↔ s ∈ spellings b := by
  have hapart : ∀ t ∈ spellings false, t ∉ spellings true := by decide
  change (if s ∈ spellings true then some true
    else if s ∈ spellings false then some false else none) = some b ↔ s ∈ spellings b
  by_cases ht : s ∈ spellings true
  · have hf : s ∉ spellings false := fun hf => hapart s hf ht
    rw [if_pos ht]
    cases b <;> simp [ht, hf]
  · rw [if_neg ht]
    cases b <;> simp [ht]

namespace Header

/-! ## Lists -/

/-- **An item of a list**: a text that is not empty and has no comma. -/
structure ListItem (item : String) : Prop where
  ne_empty : item ≠ ""
  oneLine : OneLine item
  noComma : ',' ∉ item.toList

/-- The items that come of pieces. -/
def itemsOf (ps : List (List Char)) : List String :=
  (ps.map fun cs => String.ofList (trimChars cs)).filter (!·.isEmpty)

theorem listItems_eq (value : String) : listItems value = itemsOf (pieces ',' value.toList) := rfl

theorem listItem_of_mem {value item : String} (hfeed : '\n' ∉ value.toList)
    (h : item ∈ listItems value) : ListItem item := by
  obtain ⟨hitem, hne⟩ := List.mem_filter.mp h
  obtain ⟨cs, hcs, rfl⟩ := List.mem_map.mp hitem
  refine ⟨by simpa using hne, oneLine_trimChars fun h => hfeed (mem_of_mem_pieces hcs h), ?_⟩
  rw [String.toList_ofList]
  exact trimChars_notMem (notMem_of_mem_pieces hcs)

/-- A space before a list is no part of its first item. -/
theorem itemsOf_pieces_space (cs : List Char) :
    itemsOf (pieces ',' (' ' :: cs)) = itemsOf (pieces ',' cs) := by
  rw [pieces_cons, cutStep, if_neg (by decide)]
  cases pieces ',' cs with
  | nil => decide
  | cons p ps =>
    have htrim : trimChars (' ' :: p) = trimChars p := trimChars_cons_of_blank (by decide) p
    rw [consFirst, itemsOf, List.map_cons, htrim]
    rfl

theorem itemsOf_cons {item : String} (h : ListItem item) (ps : List (List Char)) :
    itemsOf (item.toList :: ps) = item :: itemsOf ps := by
  rw [itemsOf, List.map_cons, trimChars_toList h.oneLine.trimmed, String.ofList_toList,
    List.filter_cons_of_pos (by simp [h.ne_empty])]
  rfl

/-- **A list that is written down** is read back. -/
theorem listItems_intercalate {items : List String} (h : ∀ item ∈ items, ListItem item) :
    listItems (String.intercalate ", " items) = items := by
  rw [listItems_eq]
  induction items with
  | nil => rfl
  | cons item items ih =>
    have hitem := h item (List.mem_cons_self ..)
    have hitems := ih fun item' hitem' => h item' (List.mem_cons_of_mem item hitem')
    cases items with
    | nil =>
      rw [String.intercalate_singleton, pieces_of_notMem hitem.noComma, itemsOf_cons hitem]
      rfl
    | cons next items =>
      have htext : (String.intercalate ", " (item :: next :: items)).toList =
          item.toList ++ ',' :: ' ' :: (String.intercalate ", " (next :: items)).toList := by
        rw [String.intercalate_cons_cons, String.toList_append, String.toList_append]
        simp
      rw [htext, pieces_append hitem.noComma, itemsOf_cons hitem, itemsOf_pieces_space, hitems]

/-! ## Values -/

/-- **What the value of a key means.** -/
inductive Means : Key → String → Entry → Prop
  | title (v : String) : Means .title v (.title v)
  | startUri (v : String) : Means .startUri v (.startUri v)
  | siteId {v : String} {n : Int64} (h : Numeral v n.toInt) : Means .siteId v (.siteId n)
  | cleared : Means .featureId "" (.feature .cleared)
  | assigned {v : String} {n : Int64} (h : Numeral v n.toInt) :
      Means .featureId v (.feature (.assigned n))
  | tags (v : String) : Means .tags v (.tags (listItems v))
  | browsers (v : String) : Means .browsers v (.browsers (listItems v))
  | redirect {v : String} {b : Bool} (h : v ∈ spellings b) : Means .redirect v (.redirect b)
  | execute {v : String} {b : Bool} (h : v ∈ spellings b) : Means .execute v (.execute b)
  | state (s : Script.State) : Means .state s.name (.state s)
  | noPriority : Means .priority "" (.priority none)
  | priority {v : String} {p : Script.Priority} (h : v ∈ p.spellings) :
      Means .priority v (.priority (some p))

theorem wholeNumber_eq_ok_iff {key : Key} {v : String} {n : Int64} :
    wholeNumber key v = .ok n ↔ Numeral v n.toInt := by
  rw [wholeNumber, ← int64?_eq_some_iff]
  split
  next m hm => simp [hm]
  next hm => simp [hm]

theorem boolean_eq_ok_iff {key : Key} {v : String} {b : Bool} :
    boolean key v = .ok b ↔ v ∈ spellings b := by
  rw [boolean, ← boolOfText?_eq_some_iff]
  split
  next c hc => simp [hc]
  next hc => simp [hc]

theorem map_eq_ok_iff {α β : Type} {x : Except Defect.Reason α} {f : α → β} {b : β} :
    x.map f = .ok b ↔ ∃ a, x = .ok a ∧ f a = b := by
  cases x <;> simp [Except.map]

/-- **Reading a value** gives what it means, and fails when it means nothing. -/
theorem read_eq_ok_iff {key : Key} {value : String} {e : Entry} :
    Entry.read key value = .ok e ↔ Means key value e := by
  constructor
  · intro h
    cases key with
    | title => exact Except.ok.inj h ▸ .title value
    | startUri => exact Except.ok.inj h ▸ .startUri value
    | siteId =>
      obtain ⟨n, hn, rfl⟩ := map_eq_ok_iff.mp h
      exact .siteId (wholeNumber_eq_ok_iff.mp hn)
    | featureId =>
      rw [Entry.read] at h
      split at h
      · rename_i hempty
        rw [String.isEmpty_iff] at hempty
        exact Except.ok.inj h ▸ hempty ▸ .cleared
      · obtain ⟨n, hn, rfl⟩ := map_eq_ok_iff.mp h
        exact .assigned (wholeNumber_eq_ok_iff.mp hn)
    | tags => exact Except.ok.inj h ▸ .tags value
    | browsers => exact Except.ok.inj h ▸ .browsers value
    | redirect =>
      obtain ⟨b, hb, rfl⟩ := map_eq_ok_iff.mp h
      exact .redirect (boolean_eq_ok_iff.mp hb)
    | execute =>
      obtain ⟨b, hb, rfl⟩ := map_eq_ok_iff.mp h
      exact .execute (boolean_eq_ok_iff.mp hb)
    | state =>
      rw [Entry.read] at h
      split at h
      · rename_i s hs
        exact Except.ok.inj h ▸ Script.State.ofName?_eq_some_iff.mp hs ▸ .state s
      · exact absurd h (by simp)
    | priority =>
      rw [Entry.read] at h
      split at h
      · rename_i hempty
        rw [String.isEmpty_iff] at hempty
        exact Except.ok.inj h ▸ hempty ▸ .noPriority
      · split at h
        · rename_i p hp
          exact Except.ok.inj h ▸ .priority (Script.Priority.ofAnyCase?_eq_some_iff.mp hp)
        · exact absurd h (by simp)
  · intro h
    cases h with
    | title => rfl
    | startUri => rfl
    | siteId h => exact map_eq_ok_iff.mpr ⟨_, wholeNumber_eq_ok_iff.mpr h, rfl⟩
    | cleared => rfl
    | assigned h =>
      have hne : value.isEmpty = false := by simpa using h.ne_empty
      rw [Entry.read, hne]
      exact map_eq_ok_iff.mpr ⟨_, wholeNumber_eq_ok_iff.mpr h, rfl⟩
    | tags => rfl
    | browsers => rfl
    | redirect h => exact map_eq_ok_iff.mpr ⟨_, boolean_eq_ok_iff.mpr h, rfl⟩
    | execute h => exact map_eq_ok_iff.mpr ⟨_, boolean_eq_ok_iff.mpr h, rfl⟩
    | state s => rw [Entry.read, Script.State.ofName?_name]
    | noPriority => rfl
    | priority h =>
      have hne : value.isEmpty = false := by simpa using Script.Priority.ne_empty_of_mem h
      rw [Entry.read, hne, Script.Priority.ofAnyCase?_eq_some_iff.mpr h]
      rfl

end Header

end ScriptSuite
