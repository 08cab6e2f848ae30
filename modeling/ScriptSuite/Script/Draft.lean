import ScriptSuite.Script.Header
import ScriptSuite.Script.Line

/-!
# Script/Draft — reading a script, line by line

A `Draft` is a script of which some lines have been read.  It remembers three things besides the
script: whether an identity line was seen, the instruction under way (`Block`), and the redirect
flag that a `# redirect:` line has set for the next step.

Header lines are read the same way wherever they stand, also in the middle of an instruction.  A
dash line embeds a script when no instruction is under way, and is a line of the instruction
otherwise.  An instruction is complete with its second line, which holds a question mark, but
becomes a step only at the blank line or the end of the text behind it; the redirect flag is taken
at that point.

Reading stops at the first defect (`Script.read`).
-/

namespace ScriptSuite

/-- The instruction under way. -/
inductive Draft.Block where
  /-- There is none. -/
  | empty
  /-- Its action, with the number of the line. -/
  | action (line : Nat) (text : String)
  /-- Its action and its response. -/
  | complete (action response : String)
  deriving DecidableEq

/-- A script of which some lines have been read. -/
structure Draft where
  /-- What the lines so far have set; its steps are still empty. -/
  script : Script := { id := "" }
  /-- Whether there was an identity line. -/
  named : Bool := false
  /-- The instruction under way. -/
  block : Draft.Block := .empty
  /-- The redirect flag for the next step. -/
  redirect : Option Bool := none
  /-- The steps, latest first. -/
  steps : List Step := []
  deriving DecidableEq

namespace Draft

/-- Adds a step, which takes the redirect flag. -/
def emit (d : Draft) (o : Script.Options) (step : Bool → Step) : Draft :=
  { d with
    steps := step (d.redirect.getD o.redirectDefault) :: d.steps
    redirect := none }

/-- A complete instruction becomes a step. -/
def close (d : Draft) (o : Script.Options) (action response : String) : Draft :=
  { d.emit o (fun flag => .instruction ⟨action, response, flag⟩) with block := .empty }

/-- Adds a line to the description. -/
def describe (d : Draft) (body : String) : Draft :=
  { d with script := { d.script with description := d.script.description ++ body ++ "\n" } }

/-- An identity line.  That there is only one is asked before what it says. -/
def identity (d : Draft) (line : Nat) (id : String) : Except Defect Draft :=
  if d.named then .error ⟨line, .identityRepeated⟩
  else if id.isEmpty then .error ⟨line, .identityEmpty⟩
  else .ok { d with named := true, script := { d.script with id := id } }

/-- A header line. -/
def header (d : Draft) (l : Line) (key value : String) : Except Defect Draft :=
  match Header.Key.ofName? key with
  | none => .ok (d.describe l.body)
  | some key =>
    match Header.Entry.read key value with
    | .error reason => .error ⟨l.number, reason⟩
    | .ok (.redirect flag) => .ok { d with redirect := some flag }
    | .ok entry => .ok { d with script := d.script.set entry }

/-- A line of an instruction. -/
def blockLine (d : Draft) (l : Line) : Except Defect Draft :=
  match d.block with
  | .empty => .ok { d with block := .action l.number l.text }
  | .action _ action =>
    if '?' ∈ l.text.toList then .ok { d with block := .complete action l.text }
    else .error ⟨l.number, .questionMissing⟩
  | .complete _ _ => .error ⟨l.number, .stepsNotSeparated⟩

/-- A blank line. -/
def blank (d : Draft) (o : Script.Options) (line : Nat) : Except Defect Draft :=
  match d.block with
  | .empty => .ok d
  | .action _ _ => .error ⟨line, .questionMissing⟩
  | .complete action response => .ok (d.close o action response)

/-- The end of the text. -/
def endOfText (d : Draft) (o : Script.Options) : Except Defect Draft :=
  match d.block with
  | .empty => .ok d
  | .action line _ => .error ⟨line, .stepUnfinished⟩
  | .complete action response => .ok (d.close o action response)

/-- **Reads one line.** -/
def step (o : Script.Options) (d : Draft) (l : Line) : Except Defect Draft :=
  match l.kind with
  | .identity id => d.identity l.number id
  | .header key value => d.header l key value
  | .remark => .ok (d.describe l.body)
  | .dash target =>
    match d.block with
    | .empty => .ok (d.emit o fun flag => .embed ⟨target, flag⟩)
    | _ => d.blockLine l
  | .content => d.blockLine l
  | .blank => d.blank o l.number
  | .endOfText => d.endOfText o

/-- Reads lines up to the first defect. -/
def readLines (o : Script.Options) (d : Draft) : List Line → Except Defect Draft
  | [] => .ok d
  | l :: ls =>
    match d.step o l with
    | .error e => .error e
    | .ok d' => readLines o d' ls

/-- Reads the lines behind the first `n`, and the end of the text.  Each is made a `Line` when
reading has come to it, and none is made behind a defect. -/
def readFrom (o : Script.Options) (d : Draft) (n : Nat) : List (List Char) → Except Defect Draft
  | [] => d.step o (Line.final n)
  | cs :: rest =>
    match d.step o (Line.ofChars (n + 1) cs) with
    | .error e => .error e
    | .ok d' => readFrom o d' (n + 1) rest

/-- The script, when all of its text has been read. -/
def finish (o : Script.Options) (d : Draft) : Except Defect Script :=
  if !d.named then .error ⟨0, .identityMissing⟩
  else if o.requireTitle && d.script.title.isEmpty then .error ⟨0, .titleMissing⟩
  else .ok { d.script with steps := d.steps.reverse }

@[simp] theorem readLines_nil (o : Script.Options) (d : Draft) :
    d.readLines o [] = .ok d := rfl

/-- Reading goes on where it stopped. -/
theorem readLines_append (o : Script.Options) (d : Draft) (ls ms : List Line) :
    d.readLines o (ls ++ ms) = (d.readLines o ls).bind fun d' => d'.readLines o ms := by
  induction ls generalizing d with
  | nil => rfl
  | cons l ls ih =>
    simp only [List.cons_append, readLines]
    cases d.step o l with
    | error e => rfl
    | ok d' => exact ih d'

/-- Making the lines on the way is the same as reading lines that were made before. -/
theorem readFrom_eq (o : Script.Options) (d : Draft) (n : Nat) (ls : List (List Char)) :
    d.readFrom o n ls = d.readLines o (Line.numbered n ls) := by
  induction ls generalizing d n with
  | nil =>
    simp only [readFrom, Line.numbered_nil, readLines]
    cases d.step o (Line.final n) <;> rfl
  | cons cs ls ih =>
    simp only [readFrom, Line.numbered_cons, readLines]
    cases d.step o (Line.ofChars (n + 1) cs) with
    | error e => rfl
    | ok d' => exact ih d' (n + 1)

end Draft

/-- **The script that a text defines**, or the first defect of the text. -/
def Script.read (o : Script.Options) (s : String) : Except Defect Script :=
  match Draft.readFrom o {} 0 (lines s.toList) with
  | .error e => .error e
  | .ok d => d.finish o

/-- A script is read from the lines of its text. -/
theorem Script.read_eq (o : Script.Options) (s : String) :
    Script.read o s = (Draft.readLines o {} (Line.ofText s)).bind fun d => d.finish o := by
  rw [Script.read, Draft.readFrom_eq]
  unfold Line.ofText
  cases Draft.readLines o {} (Line.numbered 0 (lines s.toList)) <;> rfl

end ScriptSuite
