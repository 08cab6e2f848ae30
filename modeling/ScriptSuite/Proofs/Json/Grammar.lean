import Mathlib.Data.List.Basic
import ScriptSuite.Json.Reader

/-!
# Proofs/Json/Grammar — every document is read

The grammar of documents is said here without the machine that reads them: the bodies of string
literals (`Body`), the literals of numbers (`Literal`), and the texts of values (`Writes`).  The
machine reads every document as the value that the grammar has for it (`read?_of_document`).
-/

namespace ScriptSuite.Json

open State

/-! ## Literals -/

/-- **The body of a string literal**: characters that are no controls, and escapes. -/
inductive Body : List Char → Prop
  | nil : Body []
  | plain {c : Char} {cs : List Char} (hquote : c ≠ '"') (hslash : c ≠ '\\')
      (hcontrol : 0x20 ≤ c.toNat) (h : Body cs) : Body (c :: cs)
  | short {c x : Char} {cs : List Char} (hc : shortEscape? c = some x) (h : Body cs) :
      Body ('\\' :: c :: cs)
  | unit {a b c d : Char} {u : Nat} {cs : List Char} (hunit : hexUnit? a b c d = some u)
      (h : Body cs) : Body ('\\' :: 'u' :: a :: b :: c :: d :: cs)

/-- Digits, at least one. -/
structure IsDigits (ds : List Char) : Prop where
  ne_nil : ds ≠ []
  all : ∀ c ∈ ds, c.isDigit = true

/-- The whole part of a number: without zeros in front. -/
inductive Whole : List Char → Prop
  | zero : Whole ['0']
  | digits {d : Char} {ds : List Char} (hd : d.isDigit = true) (hne : d ≠ '0')
      (hds : ∀ c ∈ ds, c.isDigit = true) : Whole (d :: ds)

/-- The fraction of a number, if there is one. -/
inductive Fraction : List Char → Prop
  | none : Fraction []
  | point {ds : List Char} (hds : IsDigits ds) : Fraction ('.' :: ds)

/-- The exponent of a number, if there is one. -/
inductive Exponent : List Char → Prop
  | none : Exponent []
  | mark {m : Char} {sign ds : List Char} (hm : m = 'e' ∨ m = 'E')
      (hsign : sign = [] ∨ sign = ['+'] ∨ sign = ['-']) (hds : IsDigits ds) :
      Exponent (m :: (sign ++ ds))

/-- **The literal of a number.** -/
inductive Literal : List Char → Prop
  | intro {sign whole fraction exponent : List Char} (hsign : sign = [] ∨ sign = ['-'])
      (hwhole : Whole whole) (hfraction : Fraction fraction) (hexponent : Exponent exponent) :
      Literal (sign ++ (whole ++ (fraction ++ exponent)))

/-! ## Texts of values -/

/-- Space between tokens. -/
def Space (cs : List Char) : Prop := ∀ c ∈ cs, c ∈ [' ', '\t', '\n', '\r']

/-- What is written in a document. -/
inductive Phrase where
  | value (v : Json)
  /-- A value with space around it. -/
  | spaced (v : Json)
  /-- Items with their commas. -/
  | items (vs : List Json)
  /-- A key with its value, and space around them. -/
  | member (m : List Char × Json)
  /-- Members with their commas. -/
  | members (ms : List (List Char × Json))

/-- **What a text writes.** -/
inductive Writes : Phrase → List Char → Prop
  | null : Writes (.value .null) ['n', 'u', 'l', 'l']
  | boolTrue : Writes (.value (.bool true)) ['t', 'r', 'u', 'e']
  | boolFalse : Writes (.value (.bool false)) ['f', 'a', 'l', 's', 'e']
  | number {cs : List Char} (h : Literal cs) : Writes (.value (.number cs)) cs
  | string {cs : List Char} (h : Body cs) : Writes (.value (.string cs)) ('"' :: (cs ++ ['"']))
  | noItems {space : List Char} (h : Space space) :
      Writes (.value (.array [])) ('[' :: (space ++ [']']))
  | array {vs : List Json} {cs : List Char} (h : Writes (.items vs) cs) :
      Writes (.value (.array vs)) ('[' :: (cs ++ [']']))
  | noMembers {space : List Char} (h : Space space) :
      Writes (.value (.object [])) ('\x7b' :: (space ++ ['\x7d']))
  | object {ms : List (List Char × Json)} {cs : List Char} (h : Writes (.members ms) cs) :
      Writes (.value (.object ms)) ('\x7b' :: (cs ++ ['\x7d']))
  | spaced {v : Json} {before cs after : List Char} (hbefore : Space before) (hafter : Space after)
      (h : Writes (.value v) cs) : Writes (.spaced v) (before ++ (cs ++ after))
  | item {v : Json} {cs : List Char} (h : Writes (.spaced v) cs) : Writes (.items [v]) cs
  | items {v : Json} {vs : List Json} {cs rest : List Char} (h : Writes (.spaced v) cs)
      (hrest : Writes (.items vs) rest) : Writes (.items (v :: vs)) (cs ++ ',' :: rest)
  | member {key : List Char} {v : Json} {before after cs : List Char} (hbefore : Space before)
      (hkey : Body key) (hafter : Space after) (h : Writes (.spaced v) cs) :
      Writes (.member (key, v)) (before ++ '"' :: (key ++ '"' :: (after ++ ':' :: cs)))
  | lastMember {m : List Char × Json} {cs : List Char} (h : Writes (.member m) cs) :
      Writes (.members [m]) cs
  | members {m : List Char × Json} {ms : List (List Char × Json)} {cs rest : List Char}
      (h : Writes (.member m) cs) (hrest : Writes (.members ms) rest) :
      Writes (.members (m :: ms)) (cs ++ ',' :: rest)

/-- **A document**: one value, with space around it. -/
def Document (v : Json) (s : String) : Prop := Writes (.spaced v) s.toList

/-! ## Reading to the end -/

namespace State

variable {s t : State} {stack : List Frame} {p : Phase} {as bs rest space : List Char}

/-- The value that is read when this is all that follows. -/
def read? (s : State) (cs : List Char) : Option Json := (s.run cs).bind finish

theorem read?_append (h : s.run as = some t) (bs : List Char) :
    s.read? (as ++ bs) = t.read? bs := by
  rw [read?, run_append, h, Option.bind_some, read?]

theorem read?_cons {c : Char} (h : s.step c = some t) (bs : List Char) :
    s.read? (c :: bs) = t.read? bs := by
  rw [read?, run, h, read?]

theorem isSpace_of_mem {c : Char} (h : c ∈ [' ', '\t', '\n', '\r']) : isSpace c = true := by
  simp only [List.mem_cons, List.not_mem_nil, or_false] at h
  rcases h with rfl | rfl | rfl | rfl <;> rfl

/-- Space between tokens is passed over. -/
theorem read?_space (h : Space space) (rest : List Char) :
    (⟨stack, .between p⟩ : State).read? (space ++ rest) =
      (⟨stack, .between p⟩ : State).read? rest := by
  induction space with
  | nil => rfl
  | cons c space ih =>
    obtain ⟨hc, hspace⟩ := List.forall_mem_cons.mp h
    have hstep : (⟨stack, .between p⟩ : State).step c = some ⟨stack, .between p⟩ := by
      simp only [step, between?, isSpace_of_mem hc, if_true]
    rw [List.cons_append, read?_cons hstep]
    exact ih hspace

theorem step_value {c : Char} (h : isSpace c = false) :
    (⟨stack, .between .value⟩ : State).step c = begin? stack c := by
  simp only [step, between?, h, Bool.false_eq_true, if_false]

/-- The first item of an array begins like any value. -/
theorem step_firstItem {c : Char} (h : isSpace c = false) (hend : c ≠ ']') :
    (⟨stack, .between .firstItem⟩ : State).step c =
      (⟨.array [] :: stack, .between .value⟩ : State).step c := by
  rw [step_value h]
  simp only [step, between?, h, Bool.false_eq_true, if_false, if_neg hend]

end State

/-! ## Strings -/

section Strings

variable {stack : List Frame} {role : Role} {body cs : List Char}

theorem isSome_of_hexUnit? {a b c d : Char} {u : Nat} (h : hexUnit? a b c d = some u) :
    (hexDigit? a).isSome ∧ (hexDigit? b).isSome ∧ (hexDigit? c).isSome ∧ (hexDigit? d).isSome := by
  rw [hexUnit?] at h
  cases ha : hexDigit? a <;> cases hb : hexDigit? b <;> cases hc : hexDigit? c <;>
    cases hd : hexDigit? d <;> simp [ha, hb, hc, hd] at h ⊢

theorem run_cons {s t : State} {c : Char} (h : s.step c = some t) (cs : List Char) :
    s.run (c :: cs) = t.run cs := by
  rw [run, h]

/-- **The body of a string** is read up to its end. -/
theorem run_body (h : Body body) (read : List Char) :
    (⟨stack, .string role read .nothing⟩ : State).run body =
      some ⟨stack, .string role (body.reverse ++ read) .nothing⟩ := by
  induction h generalizing read with
  | nil => rfl
  | @plain c cs hquote hslash hcontrol _ ih =>
    have hstep : (⟨stack, .string role read .nothing⟩ : State).step c =
        some ⟨stack, .string role (c :: read) .nothing⟩ := by
      simp only [step, inString?, if_neg hquote, if_neg hslash, if_neg (Nat.not_lt.mpr hcontrol)]
    rw [run_cons hstep, ih, List.reverse_cons, List.append_assoc]
    rfl
  | @short c x cs hc _ ih =>
    have hletter : c ≠ 'u' := by
      rintro rfl
      have hnone : shortEscape? 'u' = none := rfl
      rw [hnone] at hc
      cases hc
    have hstep : (⟨stack, .string role ('\\' :: read) .letter⟩ : State).step c =
        some ⟨stack, .string role (c :: '\\' :: read) .nothing⟩ := by
      simp only [step, inString?, if_neg hletter, hc, Option.isSome_some, if_true]
    have hslash : (⟨stack, .string role read .nothing⟩ : State).step '\\' =
        some ⟨stack, .string role ('\\' :: read) .letter⟩ := rfl
    rw [run_cons hslash, run_cons hstep, ih]
    simp
  | @unit a b c d u cs hunit _ ih =>
    obtain ⟨ha, hb, hc, hd⟩ := isSome_of_hexUnit? hunit
    have hdigit : ∀ (n : Nat) (read : List Char) (c : Char), (hexDigit? c).isSome →
        (⟨stack, .string role read (.digits n)⟩ : State).step c = some ⟨stack,
          .string role (c :: read) (if n ≤ 1 then .nothing else .digits (n - 1))⟩ := by
      intro n read c hc
      simp only [step, inString?, hc, if_true]
    have hslash : (⟨stack, .string role read .nothing⟩ : State).step '\\' =
        some ⟨stack, .string role ('\\' :: read) .letter⟩ := rfl
    have hletter : (⟨stack, .string role ('\\' :: read) .letter⟩ : State).step 'u' =
        some ⟨stack, .string role ('u' :: '\\' :: read) (.digits 4)⟩ := rfl
    rw [run_cons hslash, run_cons hletter]
    refine (run_cons (hdigit 4 _ a ha) _).trans ?_
    refine (run_cons (hdigit 3 _ b hb) _).trans ?_
    refine (run_cons (hdigit 2 _ c hc) _).trans ?_
    refine (run_cons (hdigit 1 _ d hd) _).trans ?_
    refine (ih _).trans ?_
    simp

/-- **A string** is read to its closing quote. -/
theorem read?_string (h : Body body) (rest : List Char) :
    (⟨stack, .string role [] .nothing⟩ : State).read? (body ++ '"' :: rest) =
      (closeString stack body role).read? rest := by
  have hclose : (⟨stack, .string role (body.reverse ++ []) .nothing⟩ : State).step '"' =
      some (closeString stack body role) := by
    simp [step, inString?]
  rw [read?_append (run_body h []), read?_cons hclose]

end Strings

/-! ## Numbers -/

/-- What may follow a value. -/
def Stops (rest : List Char) : Prop :=
  ∀ c ∈ rest.head?, c ∈ [' ', '\t', '\n', '\r', ',', ']', '\x7d']

namespace Part

variable {p q : Part} {ds : List Char}

/-- Characters that continue a number, one after another. -/
def runs? (p : Part) (cs : List Char) : Option Part := cs.foldlM next? p

/-- Digits leave a number in the part that they are of. -/
theorem runs?_digits (hds : ∀ c ∈ ds, c.isDigit = true)
    (hp : ∀ c : Char, c.isDigit = true → p.next? c = some p) : p.runs? ds = some p := by
  induction ds with
  | nil => rfl
  | cons d ds ih =>
    obtain ⟨hd, hds⟩ := List.forall_mem_cons.mp hds
    rw [runs?, List.foldlM_cons, hp d hd]
    exact ih hds

/-- Digits behind a mark that asks for some. -/
theorem runs?_isDigits (h : IsDigits ds)
    (hp : ∀ c : Char, c.isDigit = true → p.next? c = some q)
    (hq : ∀ c : Char, c.isDigit = true → q.next? c = some q) : p.runs? ds = some q := by
  cases ds with
  | nil => exact absurd rfl h.ne_nil
  | cons d ds =>
    obtain ⟨hd, hds⟩ := List.forall_mem_cons.mp h.all
    rw [runs?, List.foldlM_cons, hp d hd]
    exact runs?_digits hds hq

theorem runs?_append {as bs : List Char} (h : p.runs? as = some q) :
    p.runs? (as ++ bs) = q.runs? bs := by
  rw [runs?, List.foldlM_append]
  change (p.runs? as).bind _ = _
  rw [h]
  rfl

/-- A fraction behind a whole part. -/
theorem exists_runs?_fraction {fraction : List Char} (h : Fraction fraction)
    (hp : p = .zero ∨ p = .whole) :
    ∃ q, p.runs? fraction = some q ∧ (q = .zero ∨ q = .whole ∨ q = .fraction) := by
  cases h with
  | none => exact ⟨p, rfl, hp.imp_right .inl⟩
  | @point ds hds =>
    refine ⟨.fraction, ?_, .inr (.inr rfl)⟩
    have hpoint : p.next? '.' = some .point := by rcases hp with rfl | rfl <;> rfl
    rw [runs?, List.foldlM_cons, hpoint]
    exact runs?_isDigits hds (fun c hc => if_pos hc) fun c hc => if_pos hc

/-- An exponent behind a whole part or a fraction. -/
theorem exists_runs?_exponent {exponent : List Char} (h : Exponent exponent)
    (hp : p = .zero ∨ p = .whole ∨ p = .fraction) :
    ∃ q, p.runs? exponent = some q ∧ q.complete = true := by
  cases h with
  | none => exact ⟨p, rfl, by rcases hp with rfl | rfl | rfl <;> rfl⟩
  | @mark m sign ds hm hsign hds =>
    refine ⟨.exponent, ?_, rfl⟩
    have hmark : p.next? m = some .mark := by
      rcases hp with rfl | rfl | rfl <;> rcases hm with rfl | rfl <;> rfl
    have hexponent : ∀ c : Char, c.isDigit = true → exponent.next? c = some .exponent :=
      fun c hc => if_pos hc
    have hfirst : ∀ c : Char, c.isDigit = true → mark.next? c = some .exponent := by
      intro c hc
      have hsign : ¬ (c = '+' ∨ c = '-') := by
        rintro (rfl | rfl) <;> exact absurd hc (by decide)
      exact (if_neg hsign).trans (if_pos hc)
    rw [runs?, List.foldlM_cons, hmark]
    rcases hsign with rfl | rfl | rfl
    · exact runs?_isDigits hds hfirst hexponent
    · exact runs?_isDigits (p := .markSign) hds hexponent hexponent
    · exact runs?_isDigits (p := .markSign) hds hexponent hexponent

/-- No number goes on with what may follow a value. -/
theorem next?_of_stops {c : Char} (hc : c ∈ [' ', '\t', '\n', '\r', ',', ']', '\x7d'])
    (p : Part) : p.next? c = none := by
  simp only [List.mem_cons, List.not_mem_nil, or_false] at hc
  rcases hc with rfl | rfl | rfl | rfl | rfl | rfl | rfl <;> cases p <;> rfl

end Part

section Numbers

variable {stack : List Frame} {part q : Part} {literal cs rest : List Char}

/-- What begins a number, and the part that it begins. -/
def Part.Begins (c : Char) (p : Part) : Prop :=
  c = '-' ∧ p = .minus ∨ c = '0' ∧ p = .zero ∨ c.isDigit = true ∧ c ≠ '0' ∧ p = .whole

theorem begin?_number {c : Char} (h : part.Begins c) :
    begin? stack c = some ⟨stack, .number part [c]⟩ := by
  rcases h with ⟨rfl, rfl⟩ | ⟨rfl, rfl⟩ | ⟨hdigit, hzero, rfl⟩
  · rfl
  · rfl
  · unfold begin?
    split
    all_goals first | exact absurd hdigit (by decide) | rw [if_neg hzero, if_pos hdigit]

theorem Part.Begins.isSpace_eq_false {c : Char} (h : part.Begins c) :
    isSpace c = false ∧ c ≠ ']' := by
  rcases h with ⟨rfl, -⟩ | ⟨rfl, -⟩ | ⟨hdigit, -, -⟩
  · decide
  · decide
  · have hne : ∀ d : Char, d.isDigit = false → c ≠ d := by
      rintro d hd rfl
      exact absurd (hdigit.symm.trans hd) (by decide)
    simp only [isSpace, Bool.or_eq_false_iff, decide_eq_false_iff_not]
    exact ⟨⟨⟨⟨hne _ rfl, hne _ rfl⟩, hne _ rfl⟩, hne _ rfl⟩, hne _ rfl⟩

theorem Whole.exists_runs? {whole : List Char} (h : Whole whole) :
    ∃ (c : Char) (ds : List Char) (p : Part), whole = c :: ds ∧ p.Begins c ∧
      Part.minus.next? c = some p ∧ p.runs? ds = some p ∧ (p = .zero ∨ p = .whole) := by
  cases h with
  | zero => exact ⟨'0', [], .zero, rfl, .inr (.inl ⟨rfl, rfl⟩), rfl, rfl, .inl rfl⟩
  | @digits d ds hd hne hds =>
    exact ⟨d, ds, .whole, rfl, .inr (.inr ⟨hd, hne, rfl⟩), (if_neg hne).trans (if_pos hd),
      Part.runs?_digits hds fun c hc => if_pos hc, .inr rfl⟩

/-- **A literal** begins a number and goes on with it to a part that may be the last. -/
theorem Literal.exists_runs? (h : Literal literal) : ∃ (c : Char) (cs : List Char) (p q : Part),
    literal = c :: cs ∧ p.Begins c ∧ p.runs? cs = some q ∧ q.complete = true := by
  cases h with
  | @intro sign whole fraction exponent hsign hwhole hfraction hexponent =>
    obtain ⟨c, ds, p, rfl, hbegins, hminus, hds, hp⟩ := hwhole.exists_runs?
    obtain ⟨p', hp', hfollow⟩ := Part.exists_runs?_fraction hfraction hp
    obtain ⟨q, hq, hcomplete⟩ := Part.exists_runs?_exponent hexponent hfollow
    have hruns : p.runs? (ds ++ (fraction ++ exponent)) = some q :=
      (Part.runs?_append hds).trans ((Part.runs?_append hp').trans hq)
    rcases hsign with rfl | rfl
    · exact ⟨c, _, p, q, rfl, hbegins, hruns, hcomplete⟩
    · refine ⟨'-', c :: (ds ++ (fraction ++ exponent)), .minus, q, rfl, .inl ⟨rfl, rfl⟩, ?_,
        hcomplete⟩
      rw [Part.runs?, List.foldlM_cons, hminus]
      exact hruns

theorem run_number {read : List Char} (h : part.runs? cs = some q) :
    (⟨stack, .number part read⟩ : State).run cs =
      some ⟨stack, .number q (cs.reverse ++ read)⟩ := by
  induction cs generalizing part read with
  | nil =>
    obtain rfl : part = q := Option.some.inj h
    rfl
  | cons c cs ih =>
    rw [Part.runs?, List.foldlM_cons] at h
    cases hnext : part.next? c with
    | none =>
      rw [hnext] at h
      cases h
    | some next =>
      rw [hnext] at h
      have hstep : (⟨stack, .number part read⟩ : State).step c =
          some ⟨stack, .number next (c :: read)⟩ := by
        simp only [step, hnext]
      rw [run_cons hstep, ih h]
      simp

/-- A number ends where it cannot go on. -/
theorem read?_number {read : List Char} (hcomplete : part.complete = true) (hrest : Stops rest) :
    (⟨stack, .number part read⟩ : State).read? rest =
      (after (.number read.reverse) stack).read? rest := by
  cases rest with
  | nil =>
    rcases stack with _ | ⟨_ | _, _ | _⟩
    · exact if_pos hcomplete
    all_goals rfl
  | cons c rest =>
    have hnext := part.next?_of_stops (hrest c rfl)
    rw [State.read?, State.read?, State.run, State.run]
    simp only [step, hnext, hcomplete, if_true]
    rfl

/-- **A number** is read up to what may follow it. -/
theorem read?_literal (h : Literal literal) (hrest : Stops rest) :
    (⟨stack, .between .value⟩ : State).read? (literal ++ rest) =
      (after (.number literal) stack).read? rest := by
  obtain ⟨c, cs, p, q, rfl, hbegins, hruns, hcomplete⟩ := h.exists_runs?
  have hstep : (⟨stack, .between .value⟩ : State).step c = some ⟨stack, .number p [c]⟩ := by
    rw [step_value hbegins.isSpace_eq_false.1, begin?_number hbegins]
  rw [List.cons_append, read?_cons hstep, read?_append (run_number hruns),
    read?_number hcomplete hrest]
  simp

end Numbers

/-! ## Values -/

section Values

variable {stack : List Frame} {cs rest : List Char}

/-- What may come after the opening of an object, or after a comma in it: a key, behind these
members. -/
inductive AwaitsKey : Phase → List (List Char × Json) → Prop
  | first : AwaitsKey .firstKey []
  | next {members : List (List Char × Json)} : AwaitsKey (.key members) members

/-- **What reading makes of a phrase**, whatever stands around it. -/
def Reads : Phrase → List Char → Prop
  | .value v, cs | .spaced v, cs => ∀ (stack : List Frame) (rest : List Char), Stops rest →
      (⟨stack, .between .value⟩ : State).read? (cs ++ rest) = (after v stack).read? rest
  | .items vs, cs => ∀ (stack : List Frame) (before : List Json) (rest : List Char),
      (⟨.array before :: stack, .between .value⟩ : State).read? (cs ++ ']' :: rest) =
        (after (.array (before.reverse ++ vs)) stack).read? rest
  | .member m, cs => ∀ (stack : List Frame) (p : Phase) (before : List (List Char × Json))
      (rest : List Char), AwaitsKey p before → Stops rest →
      (⟨stack, .between p⟩ : State).read? (cs ++ rest) =
        (⟨stack, .between (.afterMember (m :: before))⟩ : State).read? rest
  | .members ms, cs => ∀ (stack : List Frame) (p : Phase) (before : List (List Char × Json))
      (rest : List Char), AwaitsKey p before →
      (⟨stack, .between p⟩ : State).read? (cs ++ '\x7d' :: rest) =
        (after (.object (before.reverse ++ ms)) stack).read? rest

/-- A value begins with a character that is neither space nor the end of an array. -/
theorem Writes.exists_head {v : Json} (h : Writes (.value v) cs) :
    ∃ c t, cs = c :: t ∧ isSpace c = false ∧ c ≠ ']' := by
  cases h with
  | number h =>
    obtain ⟨c, t, p, q, rfl, hbegins, -, -⟩ := h.exists_runs?
    exact ⟨c, t, rfl, hbegins.isSpace_eq_false⟩
  | _ => exact ⟨_, _, rfl, rfl, by decide⟩

/-- The first item of an array is read as any value is. -/
theorem Writes.read?_firstItem {v : Json} (h : Writes (.spaced v) cs) (rest : List Char) :
    (⟨stack, .between .firstItem⟩ : State).read? (cs ++ rest) =
      (⟨.array [] :: stack, .between .value⟩ : State).read? (cs ++ rest) := by
  cases h with
  | @spaced _ before cs after hbefore hafter h =>
    obtain ⟨c, t, rfl, hspace, hend⟩ := h.exists_head
    rw [List.append_assoc, read?_space hbefore, read?_space hbefore, State.read?, State.read?]
    simp only [List.cons_append, State.run, step_firstItem hspace hend]

theorem Writes.read?_firstItems {vs : List Json} (h : Writes (.items vs) cs) (rest : List Char) :
    (⟨stack, .between .firstItem⟩ : State).read? (cs ++ rest) =
      (⟨.array [] :: stack, .between .value⟩ : State).read? (cs ++ rest) := by
  cases h with
  | item h => exact h.read?_firstItem rest
  | items h hrest =>
    rw [List.append_assoc]
    exact h.read?_firstItem _

theorem stops_append {space : List Char} (h : Space space) (hrest : Stops rest) :
    Stops (space ++ rest) := by
  cases space with
  | nil => exact hrest
  | cons c space =>
    intro c' hc'
    obtain rfl : c = c' := Option.some.inj hc'
    exact List.mem_append_left _ (h c (List.mem_cons_self ..))

theorem reads_of_writes {p : Phrase} (h : Writes p cs) : Reads p cs := by
  induction h with
  | null | boolTrue | boolFalse => exact fun stack rest _ => read?_append rfl rest
  | number h => exact fun stack rest hrest => read?_literal h hrest
  | @string body h =>
    intro stack rest _
    rw [List.cons_append, List.append_assoc, read?_cons rfl]
    exact read?_string h rest
  | noItems h =>
    intro stack rest _
    rw [List.cons_append, List.append_assoc, read?_cons rfl]
    exact (read?_space h _).trans (read?_cons rfl rest)
  | array h ih =>
    intro stack rest _
    rw [List.cons_append, List.append_assoc, read?_cons rfl]
    exact (h.read?_firstItems _).trans (ih stack [] rest)
  | noMembers h =>
    intro stack rest _
    rw [List.cons_append, List.append_assoc, read?_cons rfl]
    exact (read?_space h _).trans (read?_cons rfl rest)
  | object h ih =>
    intro stack rest _
    rw [List.cons_append, List.append_assoc, read?_cons rfl]
    exact ih stack .firstKey [] rest .first
  | spaced hbefore hafter h ih =>
    intro stack rest hrest
    rw [List.append_assoc, List.append_assoc, read?_space hbefore,
      ih stack _ (stops_append hafter hrest)]
    exact read?_space hafter rest
  | @item v cs h ih =>
    intro stack before rest
    have hend : (after v (.array before :: stack)).step ']' =
        some (after (.array (v :: before).reverse) stack) := rfl
    rw [ih (.array before :: stack) _ (by simp [Stops]), read?_cons hend, List.reverse_cons]
  | @items v vs cs rest' h hrest ih ihrest =>
    intro stack before rest
    have hcomma : (after v (.array before :: stack)).step ',' =
        some ⟨.array (v :: before) :: stack, .between .value⟩ := rfl
    rw [List.append_assoc, ih (.array before :: stack) _ (by simp [Stops]), List.cons_append,
      read?_cons hcomma, ihrest]
    simp
  | @member key v before' after' cs hbefore hkey hafter h ih =>
    intro stack p before rest hp hrest
    have hquote : (⟨stack, .between p⟩ : State).step '"' =
        some ⟨stack, .string (.key before) [] .nothing⟩ := by
      cases hp <;> rfl
    have hcolon : (⟨stack, .between (.colon before key)⟩ : State).step ':' =
        some ⟨.object before key :: stack, .between .value⟩ := rfl
    rw [List.append_assoc, read?_space hbefore, List.cons_append, read?_cons hquote,
      List.append_assoc, List.cons_append, read?_string hkey, List.append_assoc, List.cons_append]
    refine (read?_space hafter _).trans ?_
    rw [read?_cons hcolon]
    exact ih _ rest hrest
  | @lastMember m cs h ih =>
    intro stack p before rest hp
    have hend : (⟨stack, .between (.afterMember (m :: before))⟩ : State).step '\x7d' =
        some (after (.object (m :: before).reverse) stack) := rfl
    rw [ih stack p before _ hp (by simp [Stops]), read?_cons hend, List.reverse_cons]
  | @members m ms cs rest' h hrest ih ihrest =>
    intro stack p before rest hp
    have hcomma : (⟨stack, .between (.afterMember (m :: before))⟩ : State).step ',' =
        some ⟨stack, .between (.key (m :: before))⟩ := rfl
    rw [List.append_assoc, ih stack p before _ hp (by simp [Stops]), List.cons_append,
      read?_cons hcomma, ihrest stack _ _ rest .next]
    simp

end Values

/-- **Every document is read**, as the value that it writes. -/
theorem read?_of_document {v : Json} {s : String} (h : Document v s) : Json.read? s = some v := by
  have hread := reads_of_writes h [] [] (by simp [Stops])
  rw [List.append_nil] at hread
  exact hread

end ScriptSuite.Json
