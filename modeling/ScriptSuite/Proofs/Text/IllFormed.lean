import ScriptSuite.Proofs.Text.Octets

/-!
# Proofs/Text/IllFormed — where octets stop being UTF-8

Octets that are no text begin with those of a longest text, and behind it comes an **ill-formed
part**: octets with which a character begins, as many as can be, or one octet with which none does
(`IllFormed`).  Both readings stop there.  The strict one names the line, and the lenient one writes
U+FFFD for the part and goes on behind it as if it began there (`exists_stopsAt_readings`).
-/

namespace ScriptSuite.Utf8

open Reading

/-- Octets with which a character begins. -/
def Begins (octets : List UInt8) : Prop := ∃ c, octets <+: String.utf8EncodeChar c

/-- **An ill-formed part** in front of other octets: no character begins with all that is there; the
part is as long as a character goes on with it, or one octet when none begins with that. -/
structure IllFormed (bad rest : List UInt8) : Prop where
  noChar : ∀ c, ¬ String.utf8EncodeChar c <+: bad ++ rest
  ne_nil : bad ≠ []
  begins : Begins bad ∨ bad.length = 1
  longest : ∀ more, more ≠ [] → more <+: rest → ¬ Begins (bad ++ more)

variable {r : Reading} {p : Pending} {b : UInt8} {octets seen rest : List UInt8}

/-! ## Characters under way -/

/-- **The bounds of the next octet** leave a choice. -/
def Pending.Open (p : Pending) : Prop := p.least ≤ p.greatest ∧ p.greatest ≤ 0xBF

/-- An octet within the bounds of the next one. -/
def Pending.Takes (p : Pending) (b : UInt8) : Prop := p.least ≤ b.toNat ∧ b.toNat ≤ p.greatest

theorem open_of_begins {n : Nat} (h : Opening.ofOctet n = .begins p) : p.Open := by
  unfold Opening.ofOctet at h
  repeat' (split at h)
  all_goals cases h
  all_goals exact ⟨by simp, by simp⟩

/-- **An octet that a character under way owes** finishes it, or leaves fewer owed; what was read
before says nothing. -/
theorem step_of_takes (hb : p.Takes b) :
    (∃ c, ∀ read fault, step ⟨some p, read, fault⟩ b = ⟨none, c :: read, fault⟩) ∨
    ∃ p', p'.Open ∧ p'.owed < p.owed ∧
      ∀ read fault, step ⟨some p, read, fault⟩ b = ⟨some p', read, fault⟩ := by
  by_cases howed : p.owed ≤ 1
  · exact .inl ⟨_, fun _ _ => (step_of_within rfl hb).trans (if_pos howed)⟩
  · exact .inr ⟨_, ⟨by simp, by simp⟩, Nat.sub_lt (by omega) Nat.one_pos,
      fun _ _ => (step_of_within rfl hb).trans (if_neg howed)⟩

/-- A character under way can be finished. -/
theorem exists_completion {p : Pending} (hp : p.Open) (read : List Char) (fault : Option Nat) :
    ∃ (more : List UInt8) (c : Char),
      more.foldl step ⟨some p, read, fault⟩ = ⟨none, c :: read, fault⟩ := by
  obtain ⟨hleast, hgreatest⟩ := hp
  have htoNat : (UInt8.ofNat p.least).toNat = p.least := Nat.mod_eq_of_lt (by omega)
  have htakes : p.Takes (UInt8.ofNat p.least) := by
    rw [Pending.Takes, htoNat]
    exact ⟨Nat.le_refl _, hleast⟩
  rcases step_of_takes htakes with ⟨c, hc⟩ | ⟨p', hp', howed, hstep⟩
  · exact ⟨[UInt8.ofNat p.least], c, hc read fault⟩
  · obtain ⟨more, c, hmore⟩ := exists_completion hp' read fault
    exact ⟨UInt8.ofNat p.least :: more, c, by rw [List.foldl_cons, hstep, hmore]⟩
  termination_by p.owed

/-- **What becomes of a character under way**: it is finished, or its octets stop short of it. -/
theorem exists_foldl_pending (p : Pending) (octets : List UInt8) :
    (∃ seen rest c, octets = seen ++ rest ∧ ∀ read fault,
      seen.foldl step ⟨some p, read, fault⟩ = ⟨none, c :: read, fault⟩) ∨
    ∃ seen rest p', octets = seen ++ rest ∧ (p.Open → p'.Open) ∧
      (∀ read fault, seen.foldl step ⟨some p, read, fault⟩ = ⟨some p', read, fault⟩) ∧
      ∀ b ∈ rest.head?, ¬ p'.Takes b := by
  induction octets generalizing p with
  | nil => exact .inr ⟨[], [], p, rfl, id, fun _ _ => rfl, by simp⟩
  | cons b octets ih =>
    by_cases hb : p.Takes b
    · rcases step_of_takes hb with ⟨c, hc⟩ | ⟨p₁, hp₁, -, hstep⟩
      · exact .inl ⟨[b], octets, c, rfl, hc⟩
      · rcases ih p₁ with ⟨seen, rest, c, rfl, hseen⟩ | ⟨seen, rest, p', rfl, hp', hseen, hrest⟩
        · exact .inl ⟨b :: seen, rest, c, rfl, fun read fault => by
            rw [List.foldl_cons, hstep, hseen]⟩
        · exact .inr ⟨b :: seen, rest, p', rfl, fun _ => hp' hp₁, fun read fault => by
            rw [List.foldl_cons, hstep, hseen], hrest⟩
    · exact .inr ⟨[], b :: octets, p, rfl, id, fun _ _ => rfl, by simpa using hb⟩

/-! ## Beginnings of characters -/

/-- Octets that were read without a fault as one character are those of the character. -/
theorem eq_encodeChar_of_foldl {c : Char} (h : octets.foldl step {} = ⟨none, [c], none⟩) :
    octets = String.utf8EncodeChar c := by
  have hfault : (octets.foldl step {}).finish.fault = none := by rw [h]; rfl
  obtain ⟨cs, rfl⟩ := exists_encode rfl hfault
  rw [foldl_step_encode rfl] at h
  have hcs : cs.reverse ++ [] = [c] := congrArg Reading.read h
  rw [List.append_nil, List.reverse_eq_iff] at hcs
  simp [hcs]

/-- **A character begins** with octets behind which one is under way. -/
theorem begins_of_foldl (h : octets.foldl step {} = ⟨some p, [], none⟩) (hp : p.Open) :
    Begins octets := by
  obtain ⟨more, c, hmore⟩ := exists_completion hp [] none
  rw [← h, ← List.foldl_append] at hmore
  exact ⟨c, more, eq_encodeChar_of_foldl hmore⟩

/-- No character begins with octets that have a fault. -/
theorem not_begins_of_fault (h : (octets.foldl step {}).fault ≠ none) : ¬ Begins octets := by
  rintro ⟨c, more, hmore⟩
  have hfault := fault_finish_ne_none h more
  rw [← List.foldl_append, hmore, (spells_encodeChar c).foldl_step rfl] at hfault
  exact hfault rfl

/-- Nor with more octets than these. -/
theorem Begins.of_append (h : Begins (octets ++ rest)) : Begins octets := by
  obtain ⟨c, hc⟩ := h
  exact ⟨c, (List.prefix_append octets rest).trans hc⟩

/-! ## Ill-formed parts -/

/-- **An ill-formed part ends** at the end, or in front of an octet that the character under way
does not take. -/
theorem foldl_finish_of_not_takes (hrest : ∀ b ∈ rest.head?, ¬ p.Takes b) (read : List Char)
    (fault : Option Nat) : (rest.foldl step ⟨some p, read, fault⟩).finish =
      (rest.foldl step (⟨none, read, fault⟩ : Reading).refuse).finish := by
  cases rest with
  | nil => simp [finish, refuse_eq, Reading.line]
  | cons b rest =>
    have hstep : step ⟨some p, read, fault⟩ b = (⟨none, read, fault⟩ : Reading).refuse.step b := by
      rw [step_of_not_within rfl (hrest b rfl), step_of_none (by rw [refuse_eq]), refuse_eq,
        refuse_eq]
      rfl
    rw [List.foldl_cons, hstep, List.foldl_cons]

/-- **Octets that no character begins** begin with an ill-formed part. -/
theorem exists_illFormed (hne : octets ≠ [])
    (hno : ∀ c, ¬ String.utf8EncodeChar c <+: octets) : ∃ bad rest, octets = bad ++ rest ∧
      IllFormed bad rest ∧ ∀ r, r.pending = none →
        (octets.foldl step r).finish = (rest.foldl step r.refuse).finish := by
  obtain ⟨b, tail, rfl⟩ := List.exists_cons_of_ne_nil hne
  have hstart : ∀ r : Reading, r.pending = none → r.step b = r.start b.toNat :=
    fun r hr => step_of_none hr b
  unfold start at hstart
  rcases opening_cases b.toNat with ⟨hb, -⟩ | hopening | ⟨p, hopening, -⟩
  · have hchar := (Spells.one hb).eq_encodeChar
    rw [UInt8.ofNat_toNat] at hchar
    exact absurd ⟨tail, by rw [← hchar]; rfl⟩ (hno _)
  · simp only [hopening] at hstart
    refine ⟨[b], tail, rfl, ⟨hno, by simp, .inr rfl, fun more _ _ hmore => ?_⟩, fun r hr => ?_⟩
    · refine not_begins_of_fault ?_ hmore.of_append
      rw [List.foldl_cons, List.foldl_nil, hstart _ rfl]
      exact fault_refuse_ne_none _
    · rw [List.foldl_cons, hstart r hr]
  · simp only [hopening] at hstart
    rcases exists_foldl_pending p tail with ⟨seen, rest, c, rfl, hseen⟩ |
      ⟨seen, rest, p', rfl, hp', hseen, hrest⟩
    · have hchar : (b :: seen).foldl step {} = ⟨none, [c], none⟩ := by
        rw [List.foldl_cons, hstart _ rfl, hseen]
      exact absurd ⟨rest, by rw [← eq_encodeChar_of_foldl hchar]; rfl⟩ (hno c)
    · have hbad : (b :: seen).foldl step {} = ⟨some p', [], none⟩ := by
        rw [List.foldl_cons, hstart _ rfl, hseen]
      refine ⟨b :: seen, rest, rfl, ⟨hno, by simp,
        .inl (begins_of_foldl hbad (hp' (open_of_begins hopening))), ?_⟩, fun r hr => ?_⟩
      · rintro more hlonger ⟨rest', rfl⟩ hmore
        obtain ⟨t, more, rfl⟩ := List.exists_cons_of_ne_nil hlonger
        rw [List.append_cons] at hmore
        refine not_begins_of_fault ?_ hmore.of_append
        rw [List.foldl_append, hbad, List.foldl_cons, List.foldl_nil,
          step_of_not_within rfl (hrest t rfl)]
        exact fault_start_ne_none (fault_refuse_ne_none _) _
      · rw [List.foldl_cons, hstart r hr, List.foldl_append, hseen,
          foldl_finish_of_not_takes hrest, refuse_eq, refuse_eq]
        rfl

/-! ## The longest text -/

/-- **Where octets stop being a text**: the longest text that they begin with, the ill-formed part
behind it, and what is left. -/
structure StopsAt (octets : List UInt8) (s : String) (bad rest : List UInt8) : Prop where
  eq : octets = encode s ++ (bad ++ rest)
  illFormed : IllFormed bad rest

/-- No text that octets begin with is longer. -/
theorem StopsAt.longest {s t : String} {bad : List UInt8} (h : StopsAt octets s bad rest)
    (ht : encode t <+: octets) : (encode t).length ≤ (encode s).length := by
  refine Nat.le_of_not_lt fun hlonger => ?_
  rw [h.eq] at ht
  obtain ⟨more, hmore⟩ := List.prefix_of_prefix_length_le (List.prefix_append _ _) ht
    (Nat.le_of_lt hlonger)
  have hfault : (more.foldl step ⟨none, s.toList.reverse, none⟩).finish.fault = none := by
    have hread := ofOctets_encode t
    rw [ofOctets, ← hmore, List.foldl_append, encode, foldl_step_encode rfl, List.append_nil]
      at hread
    rw [hread]
  obtain ⟨cs, rfl⟩ := exists_encode rfl hfault
  rw [← hmore, List.prefix_append_right_inj] at ht
  cases cs with
  | nil => simp [← hmore] at hlonger
  | cons c cs => exact h.illFormed.noChar c ((List.prefix_append _ _).trans ht)

/-- **Octets that are no text** stop being one somewhere, and both readings go on as they would
behind the ill-formed part. -/
theorem exists_stopsAt {octets : List UInt8} (h : ∀ s, octets ≠ encode s) :
    ∃ s bad rest, StopsAt octets s bad rest ∧ ∀ r, r.pending = none →
      (octets.foldl step r).finish = (rest.foldl step
        (⟨none, s.toList.reverse ++ r.read, r.fault⟩ : Reading).refuse).finish := by
  by_cases hchar : ∃ c, String.utf8EncodeChar c <+: octets
  · obtain ⟨c, tail, htail⟩ := hchar
    have hencode : ∀ s : String, encode (String.singleton c ++ s) =
        String.utf8EncodeChar c ++ encode s := fun s => by simp [encode]
    have htext : ∀ s, tail ≠ encode s := by
      rintro s rfl
      exact h _ (htail.symm.trans (hencode s).symm)
    have hlt : tail.length < octets.length := by
      have hpos := c.utf8Size_pos
      rw [← htail, List.length_append, String.length_utf8EncodeChar]
      omega
    obtain ⟨s, bad, rest, hstops, hread⟩ := exists_stopsAt htext
    refine ⟨String.singleton c ++ s, bad, rest, ⟨?_, hstops.illFormed⟩, fun r hr => ?_⟩
    · rw [← htail, hencode, hstops.eq, List.append_assoc]
    · rw [← htail, List.foldl_append, (spells_encodeChar c).foldl_step hr, hread _ rfl]
      simp
  · have hne : octets ≠ [] := h ""
    obtain ⟨bad, rest, heq, hill, hread⟩ := exists_illFormed hne (not_exists.mp hchar)
    refine ⟨"", bad, rest, ⟨heq, hill⟩, fun r hr => ?_⟩
    rw [hread r hr, refuse_eq, refuse_eq]
    rfl
  termination_by octets.length

/-! ## What was read before -/

/-- A reading that is as far as another, behind some characters that it has read before. -/
def Reading.Behind (before : List Char) (r r' : Reading) : Prop :=
  r'.pending = r.pending ∧ r'.read = r.read ++ before

namespace Reading.Behind

variable {before : List Char} {r' : Reading}

theorem refuse (h : Behind before r r') : Behind before r.refuse r'.refuse := by
  rw [refuse_eq, refuse_eq]
  exact ⟨rfl, by rw [h.2, List.cons_append]⟩

theorem start (h : Behind before r r') (n : Nat) : Behind before (r.start n) (r'.start n) := by
  unfold Reading.start
  cases Opening.ofOctet n with
  | whole c => exact ⟨rfl, by rw [h.2, List.cons_append]⟩
  | begins p => exact ⟨rfl, h.2⟩
  | illFormed => exact h.refuse

theorem step (h : Behind before r r') (b : UInt8) : Behind before (r.step b) (r'.step b) := by
  cases hp : r.pending with
  | none =>
    rw [step_of_none hp, step_of_none (h.1.trans hp)]
    exact h.start _
  | some p =>
    by_cases hb : p.Takes b
    · rw [step_of_within hp hb, step_of_within (h.1.trans hp) hb]
      split
      · exact ⟨rfl, by rw [h.2, List.cons_append]⟩
      · exact ⟨rfl, h.2⟩
    · rw [step_of_not_within hp hb, step_of_not_within (h.1.trans hp) hb]
      exact h.refuse.start _

theorem finish (h : Behind before r r') : Behind before r.finish r'.finish := by
  unfold Reading.finish
  rw [h.1]
  cases r.pending with
  | none => exact h
  | some p => exact h.refuse

/-- **What is read** does not hang on what was read before. -/
theorem foldl_finish (h : Behind before r r') (octets : List UInt8) :
    Behind before (octets.foldl Reading.step r).finish (octets.foldl Reading.step r').finish := by
  induction octets generalizing r r' with
  | nil => exact h.finish
  | cons b octets ih => exact ih (h.step b)

end Reading.Behind

/-! ## The two readings of octets that are no text -/

/-- A line feed is one octet, and no other character has that octet. -/
theorem Spells.count_feed {c : Char} (h : Spells octets c) :
    octets.count 0x0A = [c].count '\n' := by
  have hoctet : ∀ n < 256, n ≠ 0x0A → UInt8.ofNat n ≠ 0x0A := by
    intro n hn hne h
    have htoNat : (UInt8.ofNat n).toNat = n := Nat.mod_eq_of_lt hn
    rw [h] at htoNat
    exact hne htoNat.symm
  -- what is written for a character but a line feed, in whatever number of octets
  have hother : ∀ (ns : List Nat) (v : Nat), (∀ n ∈ ns, n < 256 ∧ n ≠ 0x0A) →
      (v < 0xD800 ∨ 0xDFFF < v ∧ v < 0x110000) → v ≠ 0x0A →
      (ns.map UInt8.ofNat).count 0x0A = [Char.ofNat v].count '\n' := by
    intro ns v hns hv hne
    have hchar : Char.ofNat v ≠ '\n' := by
      intro h
      have htoNat := toNat_ofNat hv
      rw [h] at htoNat
      exact hne htoNat.symm
    rw [List.count_eq_zero.mpr, List.count_eq_zero.mpr]
    · simpa using hchar.symm
    · rw [List.mem_map]
      rintro ⟨n, hn, hfeed⟩
      exact hoctet n (hns n hn).1 (hns n hn).2 hfeed
  cases h with
  | @one a ha =>
    by_cases hfeed : a = 0x0A
    · rw [hfeed]
      decide
    · exact hother [a] a (by simp; omega) (by omega) hfeed
  | @two a t ha ht hlong =>
    exact hother [a + 0xC0, t + 0x80] (a * 0x40 + t) (by simp; omega) (by omega) (by omega)
  | @three a t u ha ht hu hlong hsurrogate =>
    exact hother [a + 0xE0, t + 0x80, u + 0x80] ((a * 0x40 + t) * 0x40 + u) (by simp; omega)
      (by omega) (by omega)
  | @four a t u w ha ht hu hw hlong hlimit =>
    exact hother [a + 0xF0, t + 0x80, u + 0x80, w + 0x80] (((a * 0x40 + t) * 0x40 + u) * 0x40 + w)
      (by simp; omega) (by omega) (by omega)

/-- **The line feeds of a text** are counted in its octets as well. -/
theorem count_encode (s : String) : (encode s).count 0x0A = s.toList.count '\n' := by
  rw [encode]
  induction s.toList with
  | nil => rfl
  | cons c cs ih =>
    rw [List.flatMap_cons, List.count_append, (spells_encodeChar c).count_feed, ih,
      ← List.count_append, List.singleton_append]

/-- **Octets that stop being a text** are refused for the line in which they do, and read leniently
with U+FFFD in the place of the ill-formed part. -/
theorem exists_stopsAt_readings (h : ∀ s, octets ≠ encode s) : ∃ s bad rest,
    StopsAt octets s bad rest ∧ decode octets = .error ((encode s).count 0x0A + 1) ∧
      (decodeLossy octets).toList = s.toList ++ replacement :: (decodeLossy rest).toList := by
  obtain ⟨s, bad, rest, hstops, hread⟩ := exists_stopsAt h
  have hfinish := hread {} rfl
  simp only [refuse_eq, List.append_nil] at hfinish
  refine ⟨s, bad, rest, hstops, ?_, ?_⟩
  · have hfault : (ofOctets octets).fault = some (s.toList.count '\n' + 1) := by
      rw [ofOctets, hfinish]
      refine fault_finish_of_some ?_ rest
      simp [Reading.line]
    rw [count_encode]
    simp only [decode, hfault]
  · have hstart : ∀ fault, Behind (replacement :: s.toList.reverse) {}
        ⟨none, replacement :: s.toList.reverse, fault⟩ := fun _ => ⟨rfl, rfl⟩
    have hbehind : Behind (replacement :: s.toList.reverse) (ofOctets rest) (ofOctets octets) := by
      rw [ofOctets, ofOctets, hfinish]
      exact (hstart _).foldl_finish rest
    simp [decodeLossy, Reading.chars, hbehind.2]

end ScriptSuite.Utf8
