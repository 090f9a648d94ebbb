import InterfaceTables.Text.Terminal

/-!
Arguments of a command: options with or without a value, and one operand. The value of an option and
the operand are judged when the next option is met or the arguments end, so an unknown option is
reported before a bad value that stands in front of it.
-/

namespace InterfaceTables.Command

inductive Purpose where
  | help
  | version
  | switch
  | value (shown : String) (mayBeEmpty : Bool)
deriving DecidableEq

structure OptionForm (ι : Type) where
  id : ι
  name : String
  otherNames : List String := []
  short : Option Char := none
  purpose : Purpose

def OptionForm.shown {ι : Type} (o : OptionForm ι) : String :=
  "--" ++ o.name ++
    match o.purpose with
    | .value shown _ => " <" ++ shown ++ ">"
    | _ => ""

structure Form (ι : Type) where
  options : List (OptionForm ι)
  operand : String

inductive UsageError where
  | unexpected (argument : String)
  | missingValue (shown : String)
  | unexpectedValue (value shown : String)
  | repeated (shown : String)
  | missingOperand
  | unknownCommand (name : String)
deriving DecidableEq

/-- What is told to the user. Of what the user wrote only what a terminal shows is repeated. -/
def UsageError.message : UsageError → String
  | .unexpected argument =>
    "error: unexpected argument '" ++ Text.Terminal.visible argument ++ "' found"
  | .missingValue shown =>
    "error: a value is required for '" ++ shown ++ "' but none was supplied"
  | .unexpectedValue value shown =>
    "error: unexpected value '" ++ Text.Terminal.visible value ++ "' for '" ++ shown ++
      "' found; no more were expected"
  | .repeated shown => "error: the argument '" ++ shown ++ "' cannot be used multiple times"
  | .missingOperand => "error: the following required arguments were not provided:"
  | .unknownCommand name =>
    "error: unrecognized subcommand '" ++ Text.Terminal.visible name ++ "'"

inductive Stop where
  | usage (e : UsageError)
  | help
  | version
deriving DecidableEq

/-- What arguments give: options with their values, those of switches empty, and the operand. -/
structure Arguments (ι : Type) where
  given : List (ι × String) := []
  operand : Option String := none

inductive Pending (ι : Type) where
  | nothing
  | option (o : OptionForm ι) (value : Option String)
  | operand (value : String)

structure Reading (ι : Type) where
  arguments : Arguments ι := {}
  pending : Pending ι := .nothing
  operandMet : Bool := false
  escaped : Bool := false

section

variable {ι : Type} [DecidableEq ι]

def Arguments.value? (a : Arguments ι) (id : ι) : Option String := a.given.lookup id

def Arguments.has (a : Arguments ι) (id : ι) : Bool := (a.value? id).isSome

namespace Reading

def keep (r : Reading ι) (o : OptionForm ι) (value : String) : Except Stop (Reading ι) :=
  if r.arguments.has o.id then .error (.usage (.repeated o.shown))
  else if value.isEmpty && o.purpose matches .value _ false then
    .error (.usage (.missingValue o.shown))
  else
    .ok { r with
      arguments := { r.arguments with given := r.arguments.given ++ [(o.id, value)] } }

def settle (form : Form ι) (r : Reading ι) : Except Stop (Reading ι) :=
  let rest := { r with pending := .nothing }
  match r.pending with
  | .nothing => .ok r
  | .option o none => .error (.usage (.missingValue o.shown))
  | .option o (some value) => rest.keep o value
  | .operand value =>
    if value.isEmpty then .error (.usage (.missingValue form.operand))
    else .ok { rest with arguments := { rest.arguments with operand := some value } }

def option (form : Form ι) (r : Reading ι) (o : OptionForm ι) : Except Stop (Reading ι) := do
  let r ← r.settle form
  match o.purpose with
  | .help => .error .help
  | .version => .error .version
  | .switch => r.keep o ""
  | .value _ _ => .ok { r with pending := .option o none }

def optionWith (form : Form ι) (r : Reading ι) (o : OptionForm ι) (value : String) :
    Except Stop (Reading ι) :=
  match o.purpose with
  | .value _ _ => do
    let r ← r.settle form
    r.keep o value
  | _ => .error (.usage (.unexpectedValue value o.shown))

def long (form : Form ι) (r : Reading ι) (cs : List Char) : Except Stop (Reading ι) :=
  let name := String.ofList (cs.takeWhile (· ≠ '='))
  match form.options.find? fun o => name = o.name || o.otherNames.contains name with
  | none => .error (.usage (.unexpected ("--" ++ name)))
  | some o =>
    match cs.dropWhile (· ≠ '=') with
    | _ :: value => r.optionWith form o (String.ofList value)
    | [] => r.option form o

def attached : List Char → String
  | '=' :: rest => String.ofList rest
  | cs => String.ofList cs

/-- Takes options by their short names; the first with a value takes all that follows it. -/
def cluster (form : Form ι) (r : Reading ι) : List Char → Except Stop (Reading ι)
  | [] => .ok r
  | c :: rest =>
    match form.options.find? fun o => o.short == some c with
    | none => .error (.usage (.unexpected (String.ofList ['-', c])))
    | some o =>
      match o.purpose, rest with
      | .value _ _, _ :: _ => r.optionWith form o (attached rest)
      | .value _ _, [] => r.option form o
      | _, _ =>
        match r.option form o with
        | .error stop => .error stop
        | .ok r => cluster form r rest

def takeOperand (form : Form ι) (r : Reading ι) (argument : String) :
    Except Stop (Reading ι) :=
  if r.operandMet then .error (.usage (.unexpected argument))
  else do
    let r ← r.settle form
    .ok { r with pending := .operand argument, operandMet := true }

def plain (form : Form ι) (r : Reading ι) (argument : String) : Except Stop (Reading ι) :=
  match r.pending with
  | .option o none => .ok { r with pending := .option o (some argument) }
  | _ => r.takeOperand form argument

/-- Takes one argument. A lone dash is no option, and two end the options. -/
def step (form : Form ι) (r : Reading ι) (argument : String) : Except Stop (Reading ι) :=
  if r.escaped then r.takeOperand form argument
  else match argument.toList with
    | ['-', '-'] => .ok { r with escaped := true }
    | '-' :: '-' :: name => r.long form name
    | '-' :: c :: rest => r.cluster form (c :: rest)
    | _ => r.plain form argument

def steps (form : Form ι) (r : Reading ι) : List String → Except Stop (Reading ι)
  | [] => r.settle form
  | argument :: rest =>
    match r.step form argument with
    | .error stop => .error stop
    | .ok r => steps form r rest

end Reading

def Form.read (form : Form ι) (arguments : List String) : Except Stop (Arguments ι) :=
  match Reading.steps form {} arguments with
  | .error stop => .error stop
  | .ok r => .ok r.arguments

end

end InterfaceTables.Command
