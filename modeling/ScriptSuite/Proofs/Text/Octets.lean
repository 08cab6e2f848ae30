import ScriptSuite.Text.Utf8

/-!
# Proofs/Text/Octets — a text is read from the octets that are written for it

The octets of a character are said once, by `Spells`, without reading or writing: its bits in as few
octets as will do.  These are the octets that are written for it (`Spells.eq_encodeChar`), they are
read as the character (`Spells.foldl_step`), and octets that are read without a fault begin with
those of some character (`exists_spells`).  So octets are read as a text exactly when they are the
ones written for it (`text?_eq_some_iff`).
-/

namespace ScriptSuite.Utf8

open Reading

variable {r : Reading} {p : Pending} {c : Char} {octets : List UInt8}

/-! ## The octets of a character -/

/-- **The octets of a character.**  The first bits may not be such that fewer octets would do, that
the value is a surrogate, or that it is past U+10FFFF. -/
inductive Spells : List UInt8 → Char → Prop
  | one {a : Nat} (ha : a < 0x80) : Spells [UInt8.ofNat a] (Char.ofNat a)
  | two {a t : Nat} (ha : a < 0x20) (ht : t < 0x40) (hlong : 2 ≤ a) :
      Spells [UInt8.ofNat (a + 0xC0), UInt8.ofNat (t + 0x80)] (Char.ofNat (a * 0x40 + t))
  | three {a t u : Nat} (ha : a < 0x10) (ht : t < 0x40) (hu : u < 0x40) (hlong : a = 0 → 0x20 ≤ t)
      (hsurrogate : a = 0xD → t < 0x20) :
      Spells [UInt8.ofNat (a + 0xE0), UInt8.ofNat (t + 0x80), UInt8.ofNat (u + 0x80)]
        (Char.ofNat ((a * 0x40 + t) * 0x40 + u))
  | four {a t u w : Nat} (ha : a ≤ 4) (ht : t < 0x40) (hu : u < 0x40) (hw : w < 0x40)
      (hlong : a = 0 → 0x10 ≤ t) (hlimit : a = 4 → t < 0x10) :
      Spells [UInt8.ofNat (a + 0xF0), UInt8.ofNat (t + 0x80), UInt8.ofNat (u + 0x80),
        UInt8.ofNat (w + 0x80)] (Char.ofNat (((a * 0x40 + t) * 0x40 + u) * 0x40 + w))

theorem toNat_ofNat {v : Nat} (h : v < 0xD800 ∨ 0xDFFF < v ∧ v < 0x110000) :
    (Char.ofNat v).val.toNat = v := by
  rw [Char.ofNat, dif_pos h]
  rfl

/-- **They are what is written** for the character. -/
theorem Spells.eq_encodeChar (h : Spells octets c) : octets = String.utf8EncodeChar c := by
  rw [String.utf8EncodeChar]
  cases h with
  | one ha =>
    simp only [toNat_ofNat (.inl (Nat.lt_trans ha (by decide)))]
    rw [if_pos (by omega)]
  | @two a t ha ht hlong =>
    have hfirst : (a * 0x40 + t) / 0x40 % 0x20 = a := by omega
    have hlast : (a * 0x40 + t) % 0x40 = t := by omega
    simp only [toNat_ofNat (v := a * 0x40 + t) (by omega)]
    rw [if_neg (by omega), if_pos (by omega), hfirst, hlast]
  | @three a t u ha ht hu hlong hsurrogate =>
    have hfirst : ((a * 0x40 + t) * 0x40 + u) / 0x1000 % 0x10 = a := by omega
    have hsecond : ((a * 0x40 + t) * 0x40 + u) / 0x40 % 0x40 = t := by omega
    have hlast : ((a * 0x40 + t) * 0x40 + u) % 0x40 = u := by omega
    simp only [toNat_ofNat (v := (a * 0x40 + t) * 0x40 + u) (by omega)]
    rw [if_neg (by omega), if_neg (by omega), if_pos (by omega), hfirst, hsecond, hlast]
  | @four a t u w ha ht hu hw hlong hlimit =>
    have hfirst : (((a * 0x40 + t) * 0x40 + u) * 0x40 + w) / 0x40000 % 8 = a := by omega
    have hsecond : (((a * 0x40 + t) * 0x40 + u) * 0x40 + w) / 0x1000 % 0x40 = t := by omega
    have hthird : (((a * 0x40 + t) * 0x40 + u) * 0x40 + w) / 0x40 % 0x40 = u := by omega
    have hlast : (((a * 0x40 + t) * 0x40 + u) * 0x40 + w) % 0x40 = w := by omega
    simp only [toNat_ofNat (v := ((a * 0x40 + t) * 0x40 + u) * 0x40 + w) (by omega)]
    rw [if_neg (by omega), if_neg (by omega), if_neg (by omega), hfirst, hsecond, hthird, hlast]

/-- Every character has octets. -/
theorem exists_spells_char (c : Char) : ∃ octets, Spells octets c := by
  have hvalid : c.toNat < 0xD800 ∨ 0xDFFF < c.toNat ∧ c.toNat < 0x110000 := c.valid
  have hmod : ∀ n, n % 0x40 < 0x40 := fun n => Nat.mod_lt n (by decide)
  have hbits : c = Char.ofNat c.toNat := (Char.ofNat_toNat c).symm
  have htwo : c.toNat = c.toNat / 0x40 * 0x40 + c.toNat % 0x40 := by omega
  have hthree : c.toNat / 0x40 = c.toNat / 0x1000 * 0x40 + c.toNat / 0x40 % 0x40 := by omega
  have hfour : c.toNat / 0x1000 = c.toNat / 0x40000 * 0x40 + c.toNat / 0x1000 % 0x40 := by omega
  rw [hbits]
  by_cases hone : c.toNat < 0x80
  · exact ⟨_, .one hone⟩
  by_cases hshort : c.toNat < 0x800
  · rw [htwo]
    exact ⟨_, .two (by omega) (hmod _) (by omega)⟩
  by_cases hmiddle : c.toNat < 0x10000
  · rw [htwo, hthree]
    exact ⟨_, .three (by omega) (hmod _) (hmod _) (by omega) (by omega)⟩
  · rw [htwo, hthree, hfour]
    exact ⟨_, .four (by omega) (hmod _) (hmod _) (hmod _) (by omega) (by omega)⟩

theorem spells_encodeChar (c : Char) : Spells (String.utf8EncodeChar c) c := by
  obtain ⟨octets, h⟩ := exists_spells_char c
  exact h.eq_encodeChar ▸ h

/-! ## Reading one octet -/

theorem step_of_none (h : r.pending = none) (b : UInt8) : r.step b = r.start b.toNat := by
  rw [step, h]

theorem step_of_within {b : UInt8} (h : r.pending = some p)
    (hb : p.least ≤ b.toNat ∧ b.toNat ≤ p.greatest) : r.step b =
      if p.owed ≤ 1 then ⟨none, Char.ofNat (p.bits * 64 + (b.toNat - 0x80)) :: r.read, r.fault⟩
      else ⟨some ⟨p.owed - 1, 0x80, 0xBF, p.bits * 64 + (b.toNat - 0x80)⟩, r.read, r.fault⟩ := by
  rw [step, h]
  exact if_pos hb

theorem step_of_not_within {b : UInt8} (h : r.pending = some p)
    (hb : ¬ (p.least ≤ b.toNat ∧ b.toNat ≤ p.greatest)) : r.step b = r.refuse.start b.toNat := by
  rw [step, h]
  exact if_neg hb

/-- Reads the first octet of a longer character. -/
theorem step_first {n : Nat} (h : r.pending = none) (hn : n < 256)
    (hopening : Opening.ofOctet n = .begins p) :
    r.step (UInt8.ofNat n) = ⟨some p, r.read, r.fault⟩ := by
  have htoNat : (UInt8.ofNat n).toNat = n := Nat.mod_eq_of_lt hn
  rw [step_of_none h, htoNat, start]
  simp only [hopening]

/-- Reads an octet that a longer character owes. -/
theorem step_tail {t : Nat} (h : r.pending = some p) (ht : t < 0x40) (hleast : p.least ≤ t + 0x80)
    (hgreatest : t + 0x80 ≤ p.greatest) : r.step (UInt8.ofNat (t + 0x80)) =
      if p.owed ≤ 1 then ⟨none, Char.ofNat (p.bits * 0x40 + t) :: r.read, r.fault⟩
      else ⟨some ⟨p.owed - 1, 0x80, 0xBF, p.bits * 0x40 + t⟩, r.read, r.fault⟩ := by
  have htoNat : (UInt8.ofNat (t + 0x80)).toNat = t + 0x80 := Nat.mod_eq_of_lt (by omega)
  rw [step_of_within h (by rw [htoNat]; exact ⟨hleast, hgreatest⟩), htoNat, Nat.add_sub_cancel]

/-! ## The octets of a character are read as it -/

theorem opening_two {a : Nat} (ha : a < 0x20) (hlong : 2 ≤ a) :
    Opening.ofOctet (a + 0xC0) = .begins ⟨1, 0x80, 0xBF, a⟩ := by
  rw [Opening.ofOctet, if_neg (by omega), if_neg (by omega), if_pos (by omega), Nat.add_sub_cancel]

theorem opening_three {a t : Nat} (ha : a < 0x10) (ht : t < 0x40) (hlong : a = 0 → 0x20 ≤ t)
    (hsurrogate : a = 0xD → t < 0x20) : ∃ least greatest,
      Opening.ofOctet (a + 0xE0) = .begins ⟨2, least, greatest, a⟩ ∧
        least ≤ t + 0x80 ∧ t + 0x80 ≤ greatest := by
  by_cases hzero : a = 0
  · exact ⟨0xA0, 0xBF, by rw [hzero]; rfl, by omega, by omega⟩
  by_cases hd : a = 0xD
  · exact ⟨0x80, 0x9F, by rw [hd]; rfl, by omega, by omega⟩
  · refine ⟨0x80, 0xBF, ?_, by omega, by omega⟩
    rw [Opening.ofOctet, if_neg (by omega), if_neg (by omega), if_neg (by omega),
      if_neg (by omega), if_neg (by omega), if_pos (by omega), Nat.add_sub_cancel]

theorem opening_four {a t : Nat} (ha : a ≤ 4) (ht : t < 0x40) (hlong : a = 0 → 0x10 ≤ t)
    (hlimit : a = 4 → t < 0x10) : ∃ least greatest,
      Opening.ofOctet (a + 0xF0) = .begins ⟨3, least, greatest, a⟩ ∧
        least ≤ t + 0x80 ∧ t + 0x80 ≤ greatest := by
  by_cases hzero : a = 0
  · exact ⟨0x90, 0xBF, by rw [hzero]; rfl, by omega, by omega⟩
  by_cases hfour : a = 4
  · exact ⟨0x80, 0x8F, by rw [hfour]; rfl, by omega, by omega⟩
  · refine ⟨0x80, 0xBF, ?_, by omega, by omega⟩
    rw [Opening.ofOctet, if_neg (by omega), if_neg (by omega), if_neg (by omega),
      if_neg (by omega), if_neg (by omega), if_neg (by omega), if_neg (by omega),
      if_pos (by omega), Nat.add_sub_cancel]

/-- **The octets of a character are read as it**, whatever was read before. -/
theorem Spells.foldl_step (hspells : Spells octets c) (h : r.pending = none) :
    octets.foldl step r = ⟨none, c :: r.read, r.fault⟩ := by
  cases hspells with
  | @one a ha =>
    have htoNat : (UInt8.ofNat a).toNat = a := Nat.mod_eq_of_lt (by omega)
    rw [List.foldl_cons, List.foldl_nil, step_of_none h, htoNat, start, Opening.ofOctet, if_pos ha]
  | @two a t ha ht hlong =>
    rw [List.foldl_cons, List.foldl_cons, List.foldl_nil,
      step_first h (by omega) (opening_two ha hlong), step_tail rfl ht (by simp) (by simp; omega),
      if_pos (by simp)]
  | @three a t u ha ht hu hlong hsurrogate =>
    obtain ⟨least, greatest, hopening, hleast, hgreatest⟩ := opening_three ha ht hlong hsurrogate
    rw [List.foldl_cons, List.foldl_cons, List.foldl_cons, List.foldl_nil,
      step_first h (by omega) hopening, step_tail rfl ht hleast hgreatest, if_neg (by simp),
      step_tail rfl hu (by simp) (by simp; omega), if_pos (by simp)]
  | @four a t u w ha ht hu hw hlong hlimit =>
    obtain ⟨least, greatest, hopening, hleast, hgreatest⟩ := opening_four ha ht hlong hlimit
    rw [List.foldl_cons, List.foldl_cons, List.foldl_cons, List.foldl_cons, List.foldl_nil,
      step_first h (by omega) hopening, step_tail rfl ht hleast hgreatest, if_neg (by simp),
      step_tail rfl hu (by simp) (by simp; omega), if_neg (by simp),
      step_tail rfl hw (by simp) (by simp; omega), if_pos (by simp)]

/-! ## Faults -/

section Faults

variable {n : Nat}

/-- **The end of an ill-formed sequence**: the first one settles the line. -/
theorem refuse_eq (r : Reading) :
    r.refuse = ⟨none, replacement :: r.read, some (r.fault.getD r.line)⟩ := by
  unfold refuse
  split <;> rename_i h <;> rw [h] <;> rfl

theorem fault_refuse_of_some (h : r.fault = some n) : r.refuse.fault = some n := by
  rw [refuse_eq, h]
  rfl

theorem fault_start_of_some (h : r.fault = some n) (b : Nat) : (r.start b).fault = some n := by
  unfold start
  split
  · exact h
  · exact h
  · exact fault_refuse_of_some h

theorem fault_step_of_some (h : r.fault = some n) (b : UInt8) : (r.step b).fault = some n := by
  cases hp : r.pending with
  | none =>
    rw [step_of_none hp]
    exact fault_start_of_some h _
  | some p =>
    by_cases hb : p.least ≤ b.toNat ∧ b.toNat ≤ p.greatest
    · rw [step_of_within hp hb]
      split <;> exact h
    · rw [step_of_not_within hp hb]
      exact fault_start_of_some (fault_refuse_of_some h) _

/-- **The first fault stays** to the end. -/
theorem fault_finish_of_some (h : r.fault = some n) (octets : List UInt8) :
    (octets.foldl step r).finish.fault = some n := by
  induction octets generalizing r with
  | nil =>
    rw [List.foldl_nil, finish]
    split
    · exact h
    · exact fault_refuse_of_some h
  | cons b octets ih => exact ih (fault_step_of_some h b)

theorem fault_refuse_ne_none (r : Reading) : r.refuse.fault ≠ none := by simp [refuse_eq]

theorem fault_start_ne_none (h : r.fault ≠ none) (b : Nat) : (r.start b).fault ≠ none := by
  obtain ⟨n, hn⟩ := Option.ne_none_iff_exists'.mp h
  simp [fault_start_of_some hn b]

theorem fault_finish_ne_none (h : r.fault ≠ none) (octets : List UInt8) :
    (octets.foldl step r).finish.fault ≠ none := by
  obtain ⟨n, hn⟩ := Option.ne_none_iff_exists'.mp h
  simp [fault_finish_of_some hn octets]

end Faults

/-! ## What is read without a fault -/

/-- **What an octet opens**: a character of its own, nothing, or a longer character, of which it
says the length and the first bits. -/
theorem opening_cases (b : Nat) : (b < 0x80 ∧ Opening.ofOctet b = .whole (Char.ofNat b)) ∨
    Opening.ofOctet b = .illFormed ∨ ∃ p, Opening.ofOctet b = .begins p ∧
      0x80 ≤ p.least ∧ p.greatest ≤ 0xBF ∧
      ((p.owed = 1 ∧ b = p.bits + 0xC0 ∧ p.bits < 0x20 ∧ 2 ≤ p.bits) ∨
        (p.owed = 2 ∧ b = p.bits + 0xE0 ∧ p.bits < 0x10 ∧ (p.bits = 0 → 0xA0 ≤ p.least) ∧
          (p.bits = 0xD → p.greatest ≤ 0x9F)) ∨
        (p.owed = 3 ∧ b = p.bits + 0xF0 ∧ p.bits ≤ 4 ∧ (p.bits = 0 → 0x90 ≤ p.least) ∧
          (p.bits = 4 → p.greatest ≤ 0x8F))) := by
  generalize hopening : Opening.ofOctet b = opening
  unfold Opening.ofOctet at hopening
  repeat' (split at hopening)
  all_goals subst hopening
  · exact .inl ⟨‹_›, rfl⟩
  all_goals first
    | exact .inr (.inl rfl)
    | refine .inr (.inr ⟨_, rfl, ?_⟩)
      dsimp only
      omega

/-- **What a longer character owes is there.** -/
theorem exists_tail (h : r.pending = some p) (hleast : 0x80 ≤ p.least)
    (hgreatest : p.greatest ≤ 0xBF) (hfault : (octets.foldl step r).finish.fault = none) :
    ∃ t rest, octets = UInt8.ofNat (t + 0x80) :: rest ∧ t < 0x40 ∧ p.least ≤ t + 0x80 ∧
      t + 0x80 ≤ p.greatest := by
  cases octets with
  | nil =>
    rw [List.foldl_nil, finish, h] at hfault
    exact absurd hfault (fault_refuse_ne_none r)
  | cons b rest =>
    by_cases hb : p.least ≤ b.toNat ∧ b.toNat ≤ p.greatest
    · have hadd : b.toNat - 0x80 + 0x80 = b.toNat := by omega
      refine ⟨b.toNat - 0x80, rest, ?_, by omega, by omega, by omega⟩
      rw [hadd, UInt8.ofNat_toNat]
    · have hrefused := fault_start_ne_none (fault_refuse_ne_none r) b.toNat
      rw [List.foldl_cons, step_of_not_within h hb] at hfault
      exact absurd hfault (fault_finish_ne_none hrefused rest)

/-- **Octets without a fault begin with those of a character.** -/
theorem exists_spells {b : UInt8} (h : r.pending = none)
    (hfault : ((b :: octets).foldl step r).finish.fault = none) :
    ∃ first c rest, b :: octets = first ++ rest ∧ Spells first c := by
  rw [List.foldl_cons, step_of_none h, start] at hfault
  have hofNat : UInt8.ofNat b.toNat = b := UInt8.ofNat_toNat
  rcases opening_cases b.toNat with ⟨hb, -⟩ | hopening | ⟨p, hopening, hleast, hgreatest, hkind⟩
  · rw [← hofNat]
    exact ⟨_, _, octets, rfl, .one hb⟩
  · simp only [hopening] at hfault
    exact absurd hfault (fault_finish_ne_none (fault_refuse_ne_none r) octets)
  · simp only [hopening] at hfault
    obtain ⟨t, rest, rfl, ht, hmin, hmax⟩ := exists_tail rfl hleast hgreatest hfault
    rcases hkind with ⟨-, hb, ha, hlong⟩ | ⟨howed, hb, ha, hlong, hsurrogate⟩ |
      ⟨howed, hb, ha, hlong, hlimit⟩
    · rw [← hofNat, hb]
      exact ⟨_, _, rest, rfl, .two ha ht hlong⟩
    · rw [List.foldl_cons, step_tail rfl ht hmin hmax, if_neg (by omega)] at hfault
      obtain ⟨u, rest, rfl, hu, -, -⟩ := exists_tail rfl (Nat.le_refl _) (Nat.le_refl _) hfault
      rw [← hofNat, hb]
      exact ⟨_, _, rest, rfl, .three ha ht hu (by omega) (by omega)⟩
    · rw [List.foldl_cons, step_tail rfl ht hmin hmax, if_neg (by omega)] at hfault
      obtain ⟨u, rest, rfl, hu, hmin, hmax⟩ :=
        exists_tail rfl (Nat.le_refl _) (Nat.le_refl _) hfault
      rw [List.foldl_cons, step_tail rfl hu hmin hmax, if_neg (by simp [howed])] at hfault
      obtain ⟨w, rest, rfl, hw, -, -⟩ := exists_tail rfl (Nat.le_refl _) (Nat.le_refl _) hfault
      rw [← hofNat, hb]
      exact ⟨_, _, rest, rfl, .four ha ht hu hw (by omega) (by omega)⟩

/-! ## Texts -/

/-- What is written for some characters is read as them. -/
theorem foldl_step_encode (h : r.pending = none) (cs : List Char) :
    (cs.flatMap String.utf8EncodeChar).foldl step r = ⟨none, cs.reverse ++ r.read, r.fault⟩ := by
  induction cs generalizing r with
  | nil =>
    rw [← h]
    rfl
  | cons c cs ih =>
    rw [List.flatMap_cons, List.foldl_append, (spells_encodeChar c).foldl_step h, ih rfl]
    simp

/-- **Octets without a fault** are what is written for some characters: those of the first one are
taken off, and fewer are left. -/
theorem exists_encode {r : Reading} {octets : List UInt8} (h : r.pending = none)
    (hfault : (octets.foldl step r).finish.fault = none) :
    ∃ cs : List Char, octets = cs.flatMap String.utf8EncodeChar := by
  cases hoctets : octets with
  | nil => exact ⟨[], rfl⟩
  | cons b tail =>
    rw [hoctets] at hfault
    obtain ⟨first, c, rest, hrest, hfirst⟩ := exists_spells h hfault
    rw [hrest, List.foldl_append, hfirst.foldl_step h] at hfault
    have hlt : rest.length < octets.length := by
      have hpos := c.utf8Size_pos
      rw [hoctets, hrest, List.length_append, hfirst.eq_encodeChar, String.length_utf8EncodeChar]
      omega
    obtain ⟨cs, hcs⟩ := exists_encode rfl hfault
    exact ⟨c :: cs, by rw [hrest, hcs, hfirst.eq_encodeChar, List.flatMap_cons]⟩
  termination_by octets.length

theorem ofOctets_encode (s : String) :
    Reading.ofOctets (encode s) = ⟨none, s.toList.reverse, none⟩ := by
  rw [ofOctets, encode, foldl_step_encode rfl, List.append_nil]
  rfl

theorem exists_eq_encode (h : (Reading.ofOctets octets).fault = none) :
    ∃ s, octets = encode s := by
  obtain ⟨cs, hcs⟩ := exists_encode rfl h
  exact ⟨String.ofList cs, by rw [encode, String.toList_ofList, hcs]⟩

/-- **A text is read from its octets, and from no others.** -/
theorem text?_eq_some_iff {s : String} : text? octets = some s ↔ octets = encode s := by
  have hread : ∀ t, text? (encode t) = some t := fun t => by
    simp [text?, ofOctets_encode, chars]
  refine ⟨fun h => ?_, fun h => h ▸ hread s⟩
  cases hfault : (Reading.ofOctets octets).fault with
  | some line => simp [text?, hfault] at h
  | none =>
    obtain ⟨t, rfl⟩ := exists_eq_encode hfault
    rw [Option.some.inj ((hread t).symm.trans h)]

/-- Different texts have different octets. -/
theorem encode_inj {s t : String} (h : encode s = encode t) : s = t :=
  Option.some.inj ((text?_eq_some_iff.mpr rfl).symm.trans (text?_eq_some_iff.mpr h))

/-- **A file that is read strictly** holds the octets of a text, of which a byte order mark is
dropped. -/
theorem decode_eq_ok_iff {text : String} : decode octets = .ok text ↔
    ∃ s, octets = encode s ∧ text = String.ofList (withoutMark s.toList) := by
  have hread : ∀ t, decode (encode t) = .ok (String.ofList (withoutMark t.toList)) := fun t => by
    simp [decode, ofOctets_encode, chars]
  constructor
  · intro h
    cases hfault : (Reading.ofOctets octets).fault with
    | some line => simp [decode, hfault] at h
    | none =>
      obtain ⟨t, rfl⟩ := exists_eq_encode hfault
      exact ⟨t, rfl, Except.ok.inj (h.symm.trans (hread t))⟩
  · rintro ⟨s, rfl, rfl⟩
    exact hread s

/-- **What is left of a text** without its byte order mark is all of it, unless the mark is in
front. -/
theorem eq_withoutMark_iff {s text : String} : text = String.ofList (withoutMark s.toList) ↔
    s = String.singleton byteOrderMark ++ text ∨
      text = s ∧ s.toList.head? ≠ some byteOrderMark := by
  rw [← String.toList_inj, ← String.toList_inj, ← String.toList_inj, String.toList_ofList,
    String.toList_append, String.toList_singleton, List.singleton_append]
  cases s.toList with
  | nil => simp [withoutMark]
  | cons c cs =>
    by_cases hc : c = byteOrderMark
    · simp [withoutMark, hc, eq_comm]
    · simp [withoutMark, hc]

end ScriptSuite.Utf8
