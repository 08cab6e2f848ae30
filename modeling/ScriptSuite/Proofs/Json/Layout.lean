import ScriptSuite.Json.Layout
import ScriptSuite.Proofs.Json.Escapes
import ScriptSuite.Proofs.Text.Numerals

/-!
# Proofs/Json/Layout — what is laid out is a document

A value whose literals are well formed is `Sound`; so is the value of every document
(`sound_of_document`), and laying out a sound value gives a document of it (`document_pretty`).
Values that are built from texts and whole numbers are sound, and their texts and numbers come back
from them.
-/

namespace ScriptSuite.Json

/-! ## Whole numbers -/

/-- The digits of a number that is not zero begin with one that is not zero. -/
theorem exists_toDigits_eq_cons {n : Nat} (hn : n ≠ 0) :
    ∃ d ds, Nat.toDigits 10 n = d :: ds ∧ d ≠ '0' := by
  induction n using Nat.strongRecOn with
  | ind n ih =>
    rcases Nat.lt_or_ge n 10 with hlt | hge
    · have hdigit : ∀ n < 10, n ≠ 0 → Nat.digitChar n ≠ '0' := by decide
      exact ⟨_, [], Nat.toDigits_of_lt_base hlt, hdigit n hlt hn⟩
    · obtain ⟨d, ds, hds, hd⟩ := ih (n / 10) (by omega) (by omega)
      exact ⟨d, _, by rw [Nat.toDigits_of_base_le (by decide) hge, hds, List.cons_append], hd⟩

theorem whole_repr (n : Nat) : Whole n.repr.toList := by
  have hdigits := digits_repr n
  rw [Nat.toList_repr] at hdigits ⊢
  by_cases hn : n = 0
  · rw [hn]
    exact .zero
  · obtain ⟨d, ds, hds, hd⟩ := exists_toDigits_eq_cons hn
    rw [hds] at hdigits ⊢
    exact .digits (hdigits.isDigit d (List.mem_cons_self ..)) hd fun c hc =>
      hdigits.isDigit c (List.mem_cons_of_mem d hc)

/-- **The numeral of a whole number** is a literal. -/
theorem literal_toString (z : Int) : Literal (toString z).toList := by
  rw [Int.toString_eq_repr, Int.repr_eq_if]
  split
  · have h := Literal.intro (.inl rfl) (whole_repr z.toNat) .none .none
    simpa using h
  · have h := Literal.intro (.inr rfl) (whole_repr (-z).toNat) .none .none
    simpa using h

theorem int?_of_digits {ds : List Char} {n : Nat} (h : Digits ds n) :
    (Json.number ds).int? = some (n : Int) := by
  rw [int?.eq_2, digits?_eq_some_iff.mpr h]
  · rfl
  · rintro ds rfl
    exact h.head_ne.1 rfl

/-- **A whole number comes back** from its numeral. -/
@[simp] theorem int?_int (z : Int) : (int z).int? = some z := by
  rw [int, Int.toString_eq_repr, Int.repr_eq_if]
  split
  · rename_i hz
    rw [int?_of_digits (digits_repr z.toNat), Int.toNat_of_nonneg hz]
  · rename_i hz
    have hs : ("-" ++ (-z).toNat.repr).toList = '-' :: (-z).toNat.repr.toList := by simp
    have hne : (-z).toNat ≠ 0 := by omega
    rw [hs, int?, digits?_eq_some_iff.mpr (digits_repr _), Option.bind_some, if_neg hne,
      Int.toNat_of_nonneg (by omega), Int.neg_neg]

@[simp] theorem int64?_int64 (n : Int64) : (int64 n).int64? = some n := by
  rw [int64?_eq, int64, int?_int, Option.bind_some, wordOfInt?_eq_some_iff]

@[simp] theorem nat?_nat (n : Nat) : (nat n).nat? = some n := by
  rw [nat?, nat, int?_int, Option.bind_some, if_pos (Int.natCast_nonneg n), Int.toNat_natCast]

/-! ## Sound values -/

/-- **A value whose literals are well formed.** -/
inductive Sound : Json → Prop
  | null : Sound .null
  | bool (b : Bool) : Sound (.bool b)
  | number {cs : List Char} (h : Literal cs) : Sound (.number cs)
  | string {cs : List Char} (h : Body cs) : Sound (.string cs)
  | array {vs : List Json} (h : ∀ v ∈ vs, Sound v) : Sound (.array vs)
  | object {ms : List (List Char × Json)} (hkeys : ∀ m ∈ ms, Body m.1)
      (h : ∀ m ∈ ms, Sound m.2) : Sound (.object ms)

theorem sound_text (s : String) : Sound (text s) := .string (spells_escape _).isBody

theorem sound_int (z : Int) : Sound (int z) := .number (literal_toString z)

theorem sound_texts (ss : List String) : Sound (texts ss) :=
  .array (List.forall_mem_map.mpr fun s _ => sound_text s)

theorem sound_record {ms : List (String × Json)} (h : ∀ m ∈ ms, Sound m.2) : Sound (record ms) :=
  .object (List.forall_mem_map.mpr fun m _ => (spells_escape m.1.toList).isBody)
    (List.forall_mem_map.mpr h)

/-! ## Documents -/

/-- What is written is sound. -/
def Phrase.Sound : Phrase → Prop
  | .value v | .spaced v => Json.Sound v
  | .items vs => ∀ v ∈ vs, Json.Sound v
  | .member m => Body m.1 ∧ Json.Sound m.2
  | .members ms => ∀ m ∈ ms, Body m.1 ∧ Json.Sound m.2

theorem sound_of_writes {p : Phrase} {cs : List Char} (h : Writes p cs) : p.Sound := by
  induction h with
  | null => exact .null
  | boolTrue => exact .bool true
  | boolFalse => exact .bool false
  | number h => exact .number h
  | string h => exact .string h
  | noItems _ => exact .array (List.forall_mem_nil _)
  | array _ ih => exact .array ih
  | noMembers _ => exact .object (List.forall_mem_nil _) (List.forall_mem_nil _)
  | object _ ih => exact .object (fun m hm => (ih m hm).1) fun m hm => (ih m hm).2
  | spaced _ _ _ ih => exact ih
  | item _ ih => exact List.forall_mem_singleton.mpr ih
  | items _ _ ih ihrest => exact List.forall_mem_cons.mpr ⟨ih, ihrest⟩
  | member _ hkey _ _ ih => exact ⟨hkey, ih⟩
  | lastMember _ ih => exact List.forall_mem_singleton.mpr ih
  | members _ _ ih ihrest => exact List.forall_mem_cons.mpr ⟨ih, ihrest⟩

/-- **The value of a document is sound.** -/
theorem sound_of_document {v : Json} {s : String} (h : Document v s) : Sound v :=
  sound_of_writes h

/-! ## The layout -/

theorem space_newLine (depth : Nat) : Space (newLine depth).toList := by
  intro c hc
  simp only [newLine, String.toList_append, String.toList_ofList, List.mem_append,
    List.mem_replicate] at hc
  rcases hc with hc | ⟨-, rfl⟩
  · obtain rfl : c = '\n' := by simpa using hc
    simp
  · simp

/-- A value is written behind what is there, as a text of it. -/
def Lays (v : Json) : Prop :=
  ∀ (out : String) (depth : Nat), ∃ cs,
    (writeTo out depth v).toList = out.toList ++ cs ∧ Writes (.value v) cs

/-- **The items after the first**, and the end of their array. -/
theorem exists_writeItems {vs : List Json} (hvs : ∀ v ∈ vs, Lays v) (out : String) (depth : Nat) :
    ∃ more, (writeItems out depth vs).toList = out.toList ++ (more ++ [']']) ∧
      ∀ v before cs, Space before → Writes (.value v) cs →
        Writes (.items (v :: vs)) (before ++ (cs ++ more)) := by
  induction vs generalizing out with
  | nil =>
    refine ⟨(newLine depth).toList, by simp [writeItems], fun v before cs hbefore h => ?_⟩
    exact .item (.spaced hbefore (space_newLine depth) h)
  | cons v' vs ih =>
    obtain ⟨hv', hvs⟩ := List.forall_mem_cons.mp hvs
    obtain ⟨cs', hcs', h'⟩ := hv' (out ++ "," ++ newLine (depth + 1)) (depth + 1)
    obtain ⟨more, hmore, hitems⟩ :=
      ih hvs (writeTo (out ++ "," ++ newLine (depth + 1)) (depth + 1) v')
    refine ⟨',' :: ((newLine (depth + 1)).toList ++ (cs' ++ more)), ?_,
      fun v before cs hbefore h => ?_⟩
    · rw [writeItems, hmore, hcs']
      simp
    · have hfirst := Writes.spaced hbefore (List.forall_mem_nil _) h
      have hall := Writes.items hfirst (hitems v' _ cs' (space_newLine (depth + 1)) h')
      simpa using hall

/-- A member is written behind what is there, as a text of it. -/
theorem exists_writeMember {m : List Char × Json} (hkey : Body m.1) (hm : Lays m.2) (out : String)
    (depth : Nat) : ∃ cs, (writeMember out depth m).toList = out.toList ++ cs ∧
      ∀ before after, Space before → Space after →
        Writes (.member m) (before ++ (cs ++ after)) := by
  obtain ⟨key, v⟩ := m
  obtain ⟨cs, hcs, h⟩ := hm (out ++ quoted key ++ ": ") (depth + 1)
  refine ⟨'"' :: (key ++ '"' :: ':' :: ' ' :: cs), ?_, fun before after hbefore hafter => ?_⟩
  · rw [writeMember, hcs]
    simp [quoted]
  · have hspace : Space [' '] := by simp [Space]
    have hmember := Writes.member hbefore hkey (List.forall_mem_nil _) (.spaced hspace hafter h)
    simpa using hmember

/-- **The members after the first**, and the end of their object. -/
theorem exists_writeMembers {ms : List (List Char × Json)} (hkeys : ∀ m ∈ ms, Body m.1)
    (hms : ∀ m ∈ ms, Lays m.2) (out : String) (depth : Nat) :
    ∃ more, (writeMembers out depth ms).toList = out.toList ++ (more ++ ['\x7d']) ∧
      ∀ m cs, (∀ after, Space after → Writes (.member m) (cs ++ after)) →
        Writes (.members (m :: ms)) (cs ++ more) := by
  induction ms generalizing out with
  | nil =>
    refine ⟨(newLine depth).toList, by simp [writeMembers], fun m cs h => ?_⟩
    exact .lastMember (h _ (space_newLine depth))
  | cons m' ms ih =>
    obtain ⟨hkey', hkeys⟩ := List.forall_mem_cons.mp hkeys
    obtain ⟨hm', hms⟩ := List.forall_mem_cons.mp hms
    obtain ⟨cs', hcs', h'⟩ := exists_writeMember hkey' hm' (out ++ "," ++ newLine (depth + 1)) depth
    obtain ⟨more, hmore, hmembers⟩ :=
      ih hkeys hms (writeMember (out ++ "," ++ newLine (depth + 1)) depth m')
    refine ⟨',' :: ((newLine (depth + 1)).toList ++ (cs' ++ more)), ?_, fun m cs h => ?_⟩
    · rw [writeMembers, hmore, hcs']
      simp
    · have hfirst := h [] (List.forall_mem_nil _)
      have hrest := hmembers m' ((newLine (depth + 1)).toList ++ cs') fun after hafter => by
        simpa using h' _ after (space_newLine (depth + 1)) hafter
      have hall := Writes.members hfirst hrest
      simpa using hall

/-- **A sound value is laid out** as a text of it. -/
theorem Sound.lays {v : Json} (h : Sound v) : Lays v := by
  induction h with
  | null => exact fun out depth => ⟨_, by simp [writeTo], .null⟩
  | bool b =>
    intro out depth
    cases b with
    | true => exact ⟨_, by simp [writeTo], .boolTrue⟩
    | false => exact ⟨_, by simp [writeTo], .boolFalse⟩
  | number h => exact fun out depth => ⟨_, by simp [writeTo], .number h⟩
  | string h => exact fun out depth => ⟨_, by simp [writeTo, quoted], .string h⟩
  | @array vs h ih =>
    intro out depth
    cases vs with
    | nil => exact ⟨['[', ']'], by simp [writeTo], .noItems (List.forall_mem_nil _)⟩
    | cons v vs =>
      obtain ⟨hv, hvs⟩ := List.forall_mem_cons.mp ih
      obtain ⟨cs, hcs, hwrites⟩ := hv (out ++ "[" ++ newLine (depth + 1)) (depth + 1)
      obtain ⟨more, hmore, hitems⟩ :=
        exists_writeItems hvs (writeTo (out ++ "[" ++ newLine (depth + 1)) (depth + 1) v) depth
      refine ⟨_, ?_, .array (hitems v _ cs (space_newLine (depth + 1)) hwrites)⟩
      rw [writeTo, hmore, hcs]
      simp
  | @object ms hkeys h ih =>
    intro out depth
    cases ms with
    | nil => exact ⟨['\x7b', '\x7d'], by simp [writeTo], .noMembers (List.forall_mem_nil _)⟩
    | cons m ms =>
      obtain ⟨hkey, hkeys⟩ := List.forall_mem_cons.mp hkeys
      obtain ⟨hm, hms⟩ := List.forall_mem_cons.mp ih
      obtain ⟨cs, hcs, hwrites⟩ :=
        exists_writeMember hkey hm (out ++ "\x7b" ++ newLine (depth + 1)) depth
      obtain ⟨more, hmore, hmembers⟩ := exists_writeMembers hkeys hms
        (writeMember (out ++ "\x7b" ++ newLine (depth + 1)) depth m) depth
      have hobject := hmembers m ((newLine (depth + 1)).toList ++ cs) fun after hafter => by
        simpa using hwrites _ after (space_newLine (depth + 1)) hafter
      refine ⟨_, ?_, .object hobject⟩
      rw [writeTo, hmore, hcs]
      simp

/-- **The layout of a sound value** is a document of it. -/
theorem document_pretty {v : Json} (h : Sound v) : Document v v.pretty := by
  obtain ⟨cs, hcs, hwrites⟩ := h.lays "" 0
  have hdocument := Writes.spaced (List.forall_mem_nil _) (List.forall_mem_nil _) hwrites
  rw [Document, pretty, hcs]
  simpa using hdocument

end ScriptSuite.Json
