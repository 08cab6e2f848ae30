/-!
# Script/Basic — the definition of a test

A **script** defines one test for people to carry out: who it is, how it is to be run, and its
steps in order.  A step is an instruction — something to do, and a question about what is then
seen — or it embeds another script, named by its id, whose steps are carried out in its place.

Every step has a redirect flag: whether the tester goes back to the start address before it.
-/

namespace ScriptSuite

/-- Whether a script is in use. -/
inductive Script.State where
  | enabled | disabled | draft
  deriving DecidableEq, Repr

/-- How urgent a script is. -/
inductive Script.Priority where
  | p1 | p2 | p3
  deriving DecidableEq, Repr

/-- What a script says about the feature that it tests: its number, or that there is none any
more. -/
inductive Script.Feature where
  | assigned (id : Int64)
  | cleared
  deriving DecidableEq

/-- An instruction: an action, and the question that its response answers. -/
structure Instruction where
  action : String
  response : String
  redirect : Bool
  deriving DecidableEq, Repr

/-- The steps of another script in place of this one. -/
structure Embed where
  target : String
  redirect : Bool
  deriving DecidableEq, Repr

/-- A step of a script. -/
inductive Step where
  | instruction (i : Instruction)
  | embed (e : Embed)
  deriving DecidableEq, Repr

/-- Whether the tester goes back to the start address before the step. -/
def Step.redirect : Step → Bool
  | .instruction i => i.redirect
  | .embed e => e.redirect

/-- The definition of a test.  The location says where it was read and is no part of its text. -/
structure Script where
  id : String
  title : String := ""
  startUri : String := "/"
  siteId : Option Int64 := none
  feature : Option Script.Feature := none
  state : Script.State := .enabled
  execute : Bool := true
  priority : Option Script.Priority := none
  tags : List String := []
  browsers : List String := []
  /-- Free text: whole lines, each with its line feed. -/
  description : String := ""
  steps : List Step := []
  location : String := ""
  deriving DecidableEq

namespace Script

/-! ## Names of states and priorities -/

/-- The name of a state. -/
def State.name : State → String
  | enabled => "enabled"
  | disabled => "disabled"
  | draft => "draft"

/-- The state with a name. -/
def State.ofName? (s : String) : Option State :=
  [enabled, disabled, draft].find? (·.name = s)

/-- The name of a priority. -/
def Priority.name : Priority → String
  | p1 => "P1"
  | p2 => "P2"
  | p3 => "P3"

/-- The priority with a name. -/
def Priority.ofName? (s : String) : Option Priority :=
  [p1, p2, p3].find? (·.name = s)

/-- The priority with a name whose letter may be in either case. -/
def Priority.ofAnyCase? (s : String) : Option Priority :=
  ofName? (String.ofList (s.toList.map Char.toUpper))

@[simp] theorem State.ofName?_name (s : State) : ofName? s.name = some s := by
  cases s <;> decide

@[simp] theorem Priority.ofName?_name (p : Priority) : ofName? p.name = some p := by
  cases p <;> decide

/-! ## Embeds -/

/-- The embeds of a script, each with the index of its step. -/
def embeds (s : Script) : List (Nat × Embed) :=
  s.steps.zipIdx.filterMap fun
    | (.embed e, i) => some (i, e)
    | (.instruction _, _) => none

/-- The ids that a script embeds, in the order of its steps. -/
def targets (s : Script) : List String := s.embeds.map (·.2.target)

/-! ## Options of reading and writing -/

/-- What the text of a script leaves to its reader. -/
structure Options where
  /-- The redirect flag of a step that is given none. -/
  redirectDefault : Bool := true
  /-- Whether a script has to have a title. -/
  requireTitle : Bool := false
  deriving DecidableEq, Repr

end Script

end ScriptSuite
