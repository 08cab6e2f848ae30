import ScriptSuite.Proofs.Script.Reading

/-!
# Proofs/Script/Grammar — what the lines of a script have to be, and what they say

The grammar is said of the lines of a text alone, without the drafts that reading goes through.
Header lines may stand anywhere; the other lines are blank lines, dash lines, and instructions of
two lines each (`Grammar.Blocks`).  What a text says of a field is what the last header line with
that key means; the steps are those of the other lines, each with the flag of the last redirect
line since the step before (`Grammar.Steps`).
-/

namespace ScriptSuite

open Header

/-- What a script holds under a key, if it holds something.  A redirect is no part of it. -/
def Script.held? (s : Script) : Key → Option Entry
  | .title => some (.title s.title)
  | .startUri => some (.startUri s.startUri)
  | .siteId => s.siteId.map .siteId
  | .featureId => s.feature.map .feature
  | .tags => some (.tags s.tags)
  | .browsers => some (.browsers s.browsers)
  | .redirect => none
  | .execute => some (.execute s.execute)
  | .state => some (.state s.state)
  | .priority => some (.priority s.priority)

namespace Line

/-! ## Kinds of lines -/

/-- The lines of a text, without the end of the text. -/
def written (s : String) : List Line := (lines s.toList).mapIdx fun i cs => ofChars (i + 1) cs

theorem ofText_eq (s : String) : ofText s = written s ++ [final (lines s.toList).length] := rfl

/-- A line that begins with a number sign. -/
def isHash (l : Line) : Bool :=
  match l.kind with
  | .identity _ | .header _ _ | .remark => true
  | _ => false

/-- The id of an identity line. -/
def identity? (l : Line) : Option String :=
  match l.kind with
  | .identity id => some id
  | _ => none

/-- The value of a header line with this key. -/
def value? (key : Key) (l : Line) : Option String :=
  match l.kind with
  | .header name value => if name = key.name then some value else none
  | _ => none

/-- A line of the description: a remark, or a header line whose key means nothing. -/
def isDescription (l : Line) : Bool :=
  match l.kind with
  | .header name _ => (Key.ofName? name).isNone
  | .remark => true
  | _ => false

/-- A line that can be a response: one that asks something, and is no header line. -/
def IsResponse (l : Line) : Prop :=
  (l.kind = .content ∨ ∃ target, l.kind = .dash target) ∧ '?' ∈ l.text.toList

theorem IsResponse.isHash_eq_false {l : Line} (h : l.IsResponse) : l.isHash = false := by
  rcases h.1 with hl | ⟨target, hl⟩ <;> simp [isHash, hl]

/-- The value of the last header line with a key. -/
def lastValue (key : Key) (ls : List Line) : Option String := (ls.filterMap (value? key)).getLast?

end Line

namespace Grammar

/-! ## Blocks -/

/-- **The lines that are no header lines**: blank lines, dash lines, and instructions of two lines,
each with a blank line or the end behind it. -/
inductive Blocks : List Line → Prop
  | nil : Blocks []
  | blank {l : Line} {ls : List Line} (hl : l.kind = .blank) (hls : Blocks ls) : Blocks (l :: ls)
  | dash {l : Line} {ls : List Line} {target : String} (hl : l.kind = .dash target)
      (hls : Blocks ls) : Blocks (l :: ls)
  | instruction {action response l : Line} {ls : List Line} (haction : action.kind = .content)
      (hresponse : response.IsResponse) (hl : l.kind = .blank) (hls : Blocks ls) :
      Blocks (action :: response :: l :: ls)
  | last {action response : Line} (haction : action.kind = .content)
      (hresponse : response.IsResponse) : Blocks [action, response]

/-! ## Steps -/

/-- **The redirect flag** that some lines set: that of the last redirect line, or the default. -/
def Redirects (o : Script.Options) (ls : List Line) (flag : Bool) : Prop :=
  match Line.lastValue .redirect ls with
  | some value => value ∈ spellings flag
  | none => flag = o.redirectDefault

/-- Lines that are between steps: header lines and blank lines. -/
def Idle (ls : List Line) : Prop := ∀ l ∈ ls, l.isHash = true ∨ l.kind = .blank

/-- **The lines of an instruction**: its action and its response, with header lines anywhere among
them, and the lines before it that are between steps. -/
inductive Says (o : Script.Options) : List Line → Instruction → Prop
  | intro {idle inner after : List Line} {action response : Line} {flag : Bool} (hidle : Idle idle)
      (haction : action.kind = .content) (hinner : ∀ l ∈ inner, l.isHash = true)
      (hresponse : response.IsResponse) (hafter : ∀ l ∈ after, l.isHash = true)
      (hflag : Redirects o (idle ++ action :: inner ++ response :: after) flag) :
      Says o (idle ++ action :: inner ++ response :: after) ⟨action.text, response.text, flag⟩

/-- **A line that emits a step**: a dash line, or the blank line behind an instruction; the lines
are those behind the step before. -/
inductive Emits (o : Script.Options) : List Line → Line → Step → Prop
  | embed {idle : List Line} {l : Line} {target : String} {flag : Bool} (hidle : Idle idle)
      (hl : l.kind = .dash target) (hflag : Redirects o idle flag) :
      Emits o idle l (.embed ⟨target, flag⟩)
  | instruction {ls : List Line} {l : Line} {i : Instruction} (hsaid : Says o ls i)
      (hl : l.kind = .blank) : Emits o ls l (.instruction i)

/-- **The steps that lines say.**  The end of the lines emits the last one, if it is an instruction
without a blank line behind it. -/
inductive Steps (o : Script.Options) : List Line → List Step → Prop
  | nil {idle : List Line} (hidle : Idle idle) : Steps o idle []
  | last {ls : List Line} {i : Instruction} (hsaid : Says o ls i) : Steps o ls [.instruction i]
  | cons {ls rest : List Line} {l : Line} {step : Step} {steps : List Step}
      (hemits : Emits o ls l step) (hrest : Steps o rest steps) :
      Steps o (ls ++ l :: rest) (step :: steps)

/-! ## Scripts -/

/-- **What lines have to be** to define a script. -/
structure Grammatical (o : Script.Options) (ls : List Line) : Prop where
  /-- There is one identity line, and it says something. -/
  identity : ∃ id, ls.filterMap Line.identity? = [id] ∧ id ≠ ""
  /-- The value of every key that means something means something. -/
  values : ∀ l ∈ ls, ∀ (key : Key) (value : String), l.kind = .header key.name value →
    ∃ entry, Means key value entry
  /-- The lines that are no header lines are blocks. -/
  blocks : Blocks (ls.filter (!·.isHash))
  /-- The last title says something, if a title is asked for. -/
  title : o.requireTitle = true → ∃ value, Line.lastValue .title ls = some value ∧ value ≠ ""

/-- **What lines say of a key**: what the last value of the key means, or what is usual. -/
def Holds (ls : List Line) (key : Key) (usual held : Option Entry) : Prop :=
  match Line.lastValue key ls with
  | some value => ∃ entry, Means key value entry ∧ held = some entry
  | none => held = usual

/-- **The script that lines define.** -/
structure Describes (o : Script.Options) (ls : List Line) (s : Script) : Prop where
  id : ls.filterMap Line.identity? = [s.id]
  entries : ∀ key, key ≠ .redirect →
    Holds ls key (({ id := "" } : Script).held? key) (s.held? key)
  description : s.description =
    String.join ((ls.filter Line.isDescription).map fun l => l.body ++ "\n")
  steps : Steps o ls s.steps
  location : s.location = ""

end Grammar

end ScriptSuite
