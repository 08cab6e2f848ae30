import Mathlib.Data.List.Lex
import Mathlib.Data.String.Basic
import ScriptSuite.Proofs.Text.Octets

/-!
# Proofs/Text/Bytewise — texts stand in the order of their octets

Texts are compared character by character, and octets would do as well: of two characters the
greater one has the greater octets, at the first octet that tells them apart
(`Spells.append_lt_append`).  So the order of texts is that of the octets that are written for them
(`encode_lt_encode_iff`).
-/

namespace ScriptSuite.Utf8

variable {c d : Char} {xs ys : List UInt8} {s t : String}

theorem cons_ofNat_lt_iff {a b : Nat} (ha : a < 256) (hb : b < 256) :
    UInt8.ofNat a :: xs < UInt8.ofNat b :: ys ↔ a < b ∨ a = b ∧ xs < ys := by
  rw [List.cons_lt_cons_iff, UInt8.ofNat_lt_iff_lt ha hb, ← UInt8.toNat_inj,
    UInt8.toNat_ofNat_of_lt' ha, UInt8.toNat_ofNat_of_lt' hb]

/-- **The lesser character has the lesser octets**, whatever comes behind them. -/
theorem Spells.append_lt_append (hc : Spells xs c) (hd : Spells ys d) (h : c < d)
    (xs' ys' : List UInt8) : xs ++ xs' < ys ++ ys' := by
  have hval : c.val.toNat < d.val.toNat := h
  -- Different lengths are told apart by the first octet, and equal ones by the bits in them.
  cases hc <;> cases hd <;>
    (rw [toNat_ofNat (by omega), toNat_ofNat (by omega)] at hval
     simp (disch := omega) only [List.cons_append, List.nil_append, cons_ofNat_lt_iff]
     omega)

theorem flatMap_encodeChar_lt {cs ds : List Char} (h : cs < ds) :
    cs.flatMap String.utf8EncodeChar < ds.flatMap String.utf8EncodeChar := by
  induction h with
  | @nil d ds =>
    obtain ⟨b, bs, hb⟩ := List.exists_cons_of_ne_nil (String.utf8EncodeChar_ne_nil (c := d))
    rw [List.flatMap_nil, List.flatMap_cons, hb, List.cons_append]
    exact List.nil_lt_cons ..
  | cons _ ih => exact List.append_left_lt ih
  | rel hcd => exact (spells_encodeChar _).append_lt_append (spells_encodeChar _) hcd _ _

/-- **The order of octets is that of texts.** -/
theorem encode_lt_encode_iff : encode s < encode t ↔ s < t := by
  rw [String.lt_iff_toList_lt]
  refine ⟨fun h => ?_, flatMap_encodeChar_lt⟩
  rcases lt_trichotomy s.toList t.toList with hlt | heq | hgt
  · exact hlt
  · rw [String.toList_inj.mp heq] at h
    exact absurd h (List.lt_irrefl _)
  · exact absurd (flatMap_encodeChar_lt hgt) (List.lt_asymm h)

end ScriptSuite.Utf8
