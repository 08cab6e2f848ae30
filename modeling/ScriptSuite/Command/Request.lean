/-!
# Command/Request — what a command line asks for

Arguments are options, with one dash and a letter or two dashes and a name, and operands.  A switch
stands alone; another option has a value, which follows it as the next argument, or behind an equals
sign, or directly behind the letter.  Letters of switches may be written together.  Behind two
dashes alone there are operands only.
-/

namespace ScriptSuite.Command

/-- What is to be done. -/
inductive Request where
  /-- Checks a suite, and writes the summary to a file or shows it. -/
  | validate (files : List String) (external : Option String) (redirect : Option Bool)
      (requireTitle : Bool) (output : Option String)
  /-- Shows the document of a script. -/
  | parse (file : String) (redirect : Option Bool)
  /-- Shows the canonical text of a script, or tells whether the file holds it. -/
  | format (file : String) (redirect : Option Bool) (check : Bool)
  deriving DecidableEq, Repr

namespace Request

/-- The files that a request reads. -/
def paths : Request → List String
  | validate files external .. => files ++ external.toList
  | parse file .. => [file]
  | format file .. => [file]

/-- One part of a command line. -/
inductive Part where
  | operand (text : String)
  | switch (name : String)
  | option (name value : String)
  deriving DecidableEq, Repr

/-- An option that a command has. -/
structure Spec where
  name : String
  letter : Option Char := none
  takesValue : Bool := true

/-- The switch for more logging. -/
def verbose : Spec := ⟨"verbose", some 'v', false⟩

/-- The file of scripts that are known elsewhere. -/
def external : Spec := ⟨"external", some 'e', true⟩

/-- The redirect flag of steps that are given none. -/
def redirectDefault : Spec := ⟨"redirect-default", none, true⟩

/-- Whether scripts have to have titles. -/
def requireTitle : Spec := ⟨"require-title", none, false⟩

/-- The file for the summary. -/
def output : Spec := ⟨"output", some 'o', true⟩

/-- Whether a file is compared with its canonical text. -/
def check : Spec := ⟨"check", none, false⟩

/-- The options of each command. -/
def specs : String → Option (List Spec)
  | "validate" => some [verbose, external, redirectDefault, requireTitle, output]
  | "parse" => some [verbose, redirectDefault]
  | "fmt" => some [verbose, redirectDefault, check]
  | _ => none

/-- What the letters of an argument say: switches and, at the end, perhaps an option that has its
value here or in the next argument. -/
def letters (specs : List Spec) : List Char → Option (List Part × Option String)
  | [] => some ([], none)
  | c :: cs => do
    let spec ← specs.find? (·.letter = some c)
    if spec.takesValue then
      match cs with
      | [] => return ([], some spec.name)
      | '=' :: value => return ([.option spec.name (String.ofList value)], none)
      | value => return ([.option spec.name (String.ofList value)], none)
    else
      let (parts, open?) ← letters specs cs
      return (.switch spec.name :: parts, open?)

/-- What a name behind two dashes says. -/
def word (specs : List Spec) (cs : List Char) : Option (List Part × Option String) := do
  let name := String.ofList (cs.takeWhile (· ≠ '='))
  let spec ← specs.find? (·.name = name)
  match cs.dropWhile (· ≠ '='), spec.takesValue with
  | [], true => return ([], some name)
  | [], false => return ([.switch name], none)
  | _ :: value, true => return ([.option name (String.ofList value)], none)
  | _, false => none

/-- The parts of a command line; `waiting` is an option whose value comes next. -/
def parts (specs : List Spec) (waiting : Option String) : List String → Option (List Part)
  | [] => if waiting.isNone then some [] else none
  | arg :: rest =>
    match waiting with
    | some name => (parts specs none rest).map (.option name arg :: ·)
    | none =>
      match arg.toList with
      | ['-', '-'] => some (rest.map .operand)
      | '-' :: '-' :: cs => do
        let (here, waiting) ← word specs cs
        return here ++ (← parts specs waiting rest)
      | '-' :: c :: cs => do
        let (here, waiting) ← letters specs (c :: cs)
        return here ++ (← parts specs waiting rest)
      | _ => (parts specs none rest).map (.operand arg :: ·)

/-- The operands among parts. -/
def operands (ps : List Part) : List String :=
  ps.filterMap fun
    | .operand text => some text
    | _ => none

/-- The value of an option among parts. -/
def value? (ps : List Part) (spec : Spec) : Option String :=
  ps.findSome? fun
    | .option name value => if name = spec.name then some value else none
    | _ => none

/-- Whether a switch is among parts. -/
def has (ps : List Part) (spec : Spec) : Bool := ps.contains (.switch spec.name)

/-- The redirect flag among parts; it has to be written out. -/
def redirect? (ps : List Part) : Option (Option Bool) :=
  match value? ps redirectDefault with
  | none => some none
  | some "true" => some (some true)
  | some "false" => some (some false)
  | some _ => none

/-- The request of a command with these parts. -/
def ofParts? (command : String) (ps : List Part) : Option Request := do
  let redirect ← redirect? ps
  match command, operands ps with
  | "validate", file :: files =>
    return .validate (file :: files) (value? ps external) redirect (has ps requireTitle)
      (value? ps output)
  | "parse", [file] => return .parse file redirect
  | "fmt", [file] => return .format file redirect (has ps check)
  | _, _ => none

/-- **The request of a command line.**  The switch for more logging may also come before the
command. -/
def ofArguments? : List String → Option Request
  | [] => none
  | arg :: args =>
    match specs arg with
    | some specs => (parts specs none args).bind (ofParts? arg)
    | none => if arg = "-v" ∨ arg = "--verbose" then ofArguments? args else none

end Request

end ScriptSuite.Command
