import Mathlib.Data.List.Nodup
import ScriptSuite.Json.Record
import ScriptSuite.Proofs.Json.Escapes

/-!
# Proofs/Json/Record — the fields of an object, by what its keys spell

A key may be spelled in many ways, so whether an object holds it once (`HoldsOnce`), holds it twice
(`Repeats`) or does not hold it (`Lacks`) is a matter of what the keys of its members spell.  The
fields of an object are its members with one of the names, and there are none if one of the names is
repeated (`fields?_object_eq_some_iff`, `nodup_fields_iff`).
-/

namespace ScriptSuite.Json

variable {ms : List (List Char × Json)} {fs : List (String × Json)} {m : List Char × Json}
  {names : List String} {name : String} {v : Json}

/-! ## Keys of an object -/

/-- No member has the key, however it is spelled. -/
def Lacks (name : String) (ms : List (List Char × Json)) : Prop :=
  ∀ m ∈ ms, ¬ Spells name.toList m.1

/-- Two members have the key, in whatever spellings. -/
def Repeats (name : String) (ms : List (List Char × Json)) : Prop :=
  ∃ m m', [m, m'].Sublist ms ∧ Spells name.toList m.1 ∧ Spells name.toList m'.1

/-- **An object holds a key once**, with the value. -/
structure HoldsOnce (ms : List (List Char × Json)) (name : String) (v : Json) : Prop where
  exists_member : ∃ key, (key, v) ∈ ms ∧ Spells name.toList key
  not_repeats : ¬ Repeats name ms

/-- A member with its key as a text; the text is empty when the key denotes none. -/
def named (m : List Char × Json) : String × Json := (String.ofList ((unescape m.1).getD []), m.2)

theorem fst_named_of_spells (h : Spells name.toList m.1) : (named m).1 = name := by
  rw [named, h.unescape_eq, Option.getD_some, String.ofList_toList]

/-- A member is named by what its key spells. -/
theorem fst_named_eq_iff (h : Body m.1) (hkey : (unescape m.1).isSome = true) :
    (named m).1 = name ↔ Spells name.toList m.1 := by
  obtain ⟨cs, hcs⟩ := Option.isSome_iff_exists.mp hkey
  rw [← unescape_eq_some_iff h, named, hcs, Option.getD_some, Option.some.injEq,
    ← String.toList_inj, String.toList_ofList]

/-! ## The fields of an object -/

/-- A list is read item by item, if each of them can be read. -/
theorem mapM_eq_some_iff_map {α β : Type} {f : α → Option β} {g : α → β} {l : List α}
    {l' : List β} (hg : ∀ a b, f a = some b → b = g a) :
    l.mapM f = some l' ↔ (∀ a ∈ l, (f a).isSome = true) ∧ l' = l.map g := by
  induction l generalizing l' with
  | nil =>
    rw [List.mapM_nil, List.map_nil, and_iff_right (List.forall_mem_nil _)]
    exact Option.some_inj.trans eq_comm
  | cons a l ih =>
    simp only [List.mapM_cons, Option.bind_eq_bind, Option.bind_eq_some_iff, Option.pure_def, ih,
      List.forall_mem_cons, List.map_cons]
    constructor
    · rintro ⟨b, hb, _, ⟨hall, rfl⟩, heq⟩
      rw [← Option.some_inj.mp heq, hg a b hb]
      exact ⟨⟨Option.isSome_of_eq_some hb, hall⟩, rfl⟩
    · rintro ⟨⟨ha, hall⟩, rfl⟩
      obtain ⟨b, hb⟩ := Option.isSome_iff_exists.mp ha
      exact ⟨b, hb, _, ⟨hall, rfl⟩, by rw [hg a b hb]⟩

/-- **The fields of an object** are its members with one of the names, none of them twice. -/
theorem fields?_object_eq_some_iff : (object ms).fields? names = some fs ↔
    (∀ m ∈ ms, (unescape m.1).isSome = true) ∧
      fs = (ms.map named).filter (fun n => names.contains n.1) ∧ (fs.map Prod.fst).Nodup := by
  have hmap : ∀ named', ms.mapM (fun m => (unescape m.1).map fun key => (String.ofList key, m.2)) =
      some named' ↔ (∀ m ∈ ms, (unescape m.1).isSome = true) ∧ named' = ms.map named := by
    intro named'
    refine (mapM_eq_some_iff_map (g := named) fun m n hn => ?_).trans ?_
    · obtain ⟨cs, hcs, rfl⟩ := Option.map_eq_some_iff.mp hn
      rw [named, hcs, Option.getD_some]
    · simp only [Option.isSome_map]
  rw [fields?, Option.bind_eq_bind, Option.bind_eq_some_iff]
  constructor
  · rintro ⟨_, hnamed, hfs⟩
    obtain ⟨hkeys, rfl⟩ := (hmap _).mp hnamed
    obtain ⟨hnodup, hfs⟩ := Option.ite_none_right_eq_some.mp hfs
    obtain rfl := Option.some_inj.mp hfs
    exact ⟨hkeys, rfl, hnodup⟩
  · rintro ⟨hkeys, rfl, hnodup⟩
    exact ⟨_, (hmap _).mpr ⟨hkeys, rfl⟩, if_pos hnodup⟩

/-- Fields have different names if no key is repeated. -/
theorem nodup_fields_iff (hbody : ∀ m ∈ ms, Body m.1)
    (hkeys : ∀ m ∈ ms, (unescape m.1).isSome = true) :
    (((ms.map named).filter fun n => names.contains n.1).map Prod.fst).Nodup ↔
      ∀ name ∈ names, ¬ Repeats name ms := by
  -- Being without duplicates says something of any two members that stand one behind the other.
  rw [List.Nodup, List.pairwise_map, List.pairwise_filter, List.pairwise_map,
    List.pairwise_iff_forall_sublist]
  constructor
  · rintro h name hname ⟨m, m', hsub, hm, hm'⟩
    have hne := h hsub
    rw [fst_named_of_spells hm, fst_named_of_spells hm'] at hne
    exact hne (List.contains_iff_mem.mpr hname) (List.contains_iff_mem.mpr hname) rfl
  · intro h m m' hsub hm _ heq
    have hmem : m ∈ ms := hsub.subset (List.mem_cons_self ..)
    have hmem' : m' ∈ ms := hsub.subset (List.mem_cons_of_mem _ (List.mem_cons_self ..))
    exact h _ (List.contains_iff_mem.mp hm) ⟨m, m', hsub,
      (fst_named_eq_iff (hbody m hmem) (hkeys m hmem)).mp rfl,
      (fst_named_eq_iff (hbody m' hmem') (hkeys m' hmem')).mp heq.symm⟩

theorem lookup_eq_some_iff_mem (h : (fs.map Prod.fst).Nodup) :
    fs.lookup name = some v ↔ (name, v) ∈ fs := by
  rw [List.lookup_eq_some_iff]
  constructor
  · rintro ⟨before, after, rfl, -⟩
    exact List.mem_append_right _ (List.mem_cons_self ..)
  · intro hmem
    obtain ⟨before, after, rfl⟩ := List.append_of_mem hmem
    refine ⟨before, after, rfl, fun n hn => bne_iff_ne.mpr ?_⟩
    rw [List.map_append, List.map_cons, List.nodup_middle, List.nodup_cons] at h
    rintro rfl
    exact h.1 (List.mem_append_left _ (List.mem_map.mpr ⟨n, hn, rfl⟩))

/-- **An object with each key once** has fields, and they have the values of the keys. -/
theorem exists_fields?_of_holdsOnce (hkeys : ∀ m ∈ ms, ∃ cs, Spells cs m.1)
    (honce : ∀ name ∈ names, ∃ v, HoldsOnce ms name v) :
    ∃ fs, (object ms).fields? names = some fs ∧
      ∀ name ∈ names, ∀ v, HoldsOnce ms name v → fs.lookup name = some v := by
  have hbody : ∀ m ∈ ms, Body m.1 := fun m hm => (hkeys m hm).choose_spec.isBody
  have hread : ∀ m ∈ ms, (unescape m.1).isSome = true := fun m hm =>
    Option.isSome_of_eq_some (hkeys m hm).choose_spec.unescape_eq
  have hnodup : (((ms.map named).filter fun n => names.contains n.1).map Prod.fst).Nodup :=
    (nodup_fields_iff hbody hread).mpr fun name hname =>
      (honce name hname).choose_spec.not_repeats
  refine ⟨_, fields?_object_eq_some_iff.mpr ⟨hread, rfl, hnodup⟩, fun name hname v h => ?_⟩
  obtain ⟨key, hmem, hspells⟩ := h.exists_member
  have hfst : (named (key, v)).1 = name := fst_named_of_spells hspells
  rw [lookup_eq_some_iff_mem hnodup, List.mem_filter]
  exact ⟨List.mem_map.mpr ⟨(key, v), hmem, Prod.ext hfst rfl⟩, List.contains_iff_mem.mpr hname⟩

/-- **An object that repeats a key** has no fields. -/
theorem fields?_of_repeats (hbody : ∀ m ∈ ms, Body m.1) (hname : name ∈ names)
    (h : Repeats name ms) : (object ms).fields? names = none := by
  refine Option.eq_none_iff_forall_ne_some.mpr fun fs hfs => ?_
  obtain ⟨hkeys, rfl, hnodup⟩ := fields?_object_eq_some_iff.mp hfs
  exact (nodup_fields_iff hbody hkeys).mp hnodup name hname h

/-- **An object that lacks a key** has no field with the name. -/
theorem field?_of_lacks {α : Type} {value? : Json → Option α} (hbody : ∀ m ∈ ms, Body m.1)
    (hfs : (object ms).fields? names = some fs) (h : Lacks name ms) :
    field? fs name value? = none := by
  obtain ⟨hkeys, rfl, hnodup⟩ := fields?_object_eq_some_iff.mp hfs
  rw [field?, Option.bind_eq_none_iff]
  intro v hv
  have hmem := List.mem_of_mem_filter ((lookup_eq_some_iff_mem hnodup).mp hv)
  obtain ⟨m, hm, hnamed⟩ := List.mem_map.mp hmem
  exact (h m hm ((fst_named_eq_iff (hbody m hm) (hkeys m hm)).mp (congrArg Prod.fst hnamed))).elim

end ScriptSuite.Json
