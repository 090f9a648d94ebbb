import InterfaceTables.Command.Effect
import InterfaceTables.Interface.Directories
import InterfaceTables.Settings.Loading

/-!
The command that generates or checks the tables of every directory with interface documents in a
tree of sources. Each directory is a run of its own, and its files stay in it.
-/

namespace InterfaceTables.Command

namespace Sweep

inductive Topic where
  | root
  | generate
  | check
  | help
deriving DecidableEq

def Topic.ofName? : String → Option Topic
  | "generate" => some .generate
  | "check" => some .check
  | "help" => some .help
  | _ => none

def Topic.about : Topic → String
  | .root => "Regenerates or checks every interfaces directory of a source tree"
  | .generate => "Regenerate the interface tables of every `interfaces` directory"
  | .check => "Fail if any `interfaces` directory holds out of date tables"
  | .help => "Print this message or the help of the given subcommand(s)"

def helpOptionText : String := "\nOptions:\n  -h, --help  Print help\n"

def rootArgumentText : String := "\nArguments:\n  [ROOT]  [default: .]\n"

def Topic.usage : Topic → String
  | .root =>
    "xtask <COMMAND>\n" ++
    "\n" ++
    "Commands:\n" ++
    "  generate  " ++ Topic.generate.about ++ "\n" ++
    "  check     " ++ Topic.check.about ++ "\n" ++
    "  help      " ++ Topic.help.about ++ "\n" ++
    helpOptionText
  | .generate => "xtask generate [ROOT]\n" ++ rootArgumentText ++ helpOptionText
  | .check => "xtask check [ROOT]\n" ++ rootArgumentText ++ helpOptionText
  | .help =>
    "xtask help [COMMAND]...\n" ++
    "\n" ++
    "Arguments:\n" ++
    "  [COMMAND]...  Print help for the subcommand(s)\n"

def Topic.text (t : Topic) : String := t.about ++ "\n\nUsage: " ++ t.usage

inductive Request where
  | sweep (mode : Mode) (root : Path)
  | help (topic : Topic)
  | nothing
  | misuse (e : UsageError)
deriving DecidableEq

def form : Form Unit where
  options := [{ id := (), name := "help", short := some 'h', purpose := .help }]
  operand := "[ROOT]"

def Request.ofStop (topic : Topic) : Stop → Request
  | .usage e => .misuse e
  | .help => .help topic
  | .version => .help topic

def readSweep (mode : Mode) (topic : Topic) (arguments : List String) : Request :=
  match form.read arguments with
  | .error stop => .ofStop topic stop
  | .ok a => .sweep mode (a.operand.getD ".")

def readHelp : List String → Request
  | [] => .help .root
  | name :: rest =>
    match Topic.ofName? name, rest with
    | none, _ => .misuse (.unknownCommand name)
    | some topic, [] => .help topic
    | some _, below :: _ => .misuse (.unknownCommand below)

/-- What is left where options have ended: a command is not looked for any more. -/
def readEscaped : List String → Request
  | [] => .nothing
  | name :: _ =>
    match Topic.ofName? name with
    | some _ => .misuse (.unexpected name)
    | none => .misuse (.unknownCommand name)

def isOption (argument : String) : Bool :=
  match argument.toList with
  | '-' :: _ :: _ => true
  | _ => false

def Request.read : List String → Request
  | [] => .nothing
  | "--" :: rest => readEscaped rest
  | argument :: rest =>
    match Topic.ofName? argument with
    | some .generate => readSweep .write .generate rest
    | some .check => readSweep .check .check rest
    | some .help => readHelp rest
    | _ =>
      if isOption argument then
        match form.read [argument] with
        | .error stop => .ofStop .root stop
        | .ok _ => .nothing
      else .misuse (.unknownCommand argument)

def causeLine (index : Nat) (cause : String) : String :=
  "    " ++ toString index ++ ": " ++ cause.replace "\n" "\n       " ++ "\n"

def errorText (what near far : String) : String :=
  "Error: " ++ what ++ "\n\nCaused by:\n" ++ causeLine 0 near ++ causeLine 1 far

def searchErrorText (root : Path) : SearchError → String
  | .unlistable dir e =>
    errorText ("walking " ++ root) (e.listingText dir) e.message
  | .schema e =>
    match e.cause with
    | .unlistable cause =>
      errorText e.message (cause.listingText e.path) cause.message
    | _ => "Error: " ++ e.message ++ "\n"

def directoryOptions (s : Settings) (mode : Mode) (dir : Path) : RunOptions :=
  { s.runOptions dir mode with outputDir := dir }

structure Tally where
  workspace : Workspace
  failures : Nat := 0
  output : String := ""
  errors : String := ""

def Tally.add (t : Tally) (s : Settings) (mode : Mode) (dir : Path) : Tally :=
  let o := run (directoryOptions s mode dir) t.workspace
  match o.result with
  | .ok r =>
    { t with
      workspace := o.workspace
      output := t.output ++
        successLine (dir ++ " (" ++ toString r.interfaceCount ++ " interface(s))") }
  | .error e =>
    { t with
      workspace := o.workspace
      failures := t.failures + 1
      errors := t.errors ++ failureLine (dir ++ ": " ++ e.message) ++ diffText e }

/-- Runs over directories one after the other, whether or not runs before failed. -/
def Tally.addAll (t : Tally) (s : Settings) (mode : Mode) : List Path → Tally
  | [] => t
  | dir :: rest => addAll (t.add s mode dir) s mode rest

def Tally.effect (t : Tally) (count : Nat) : Effect :=
  if t.failures = 0 then ⟨0, t.output, t.errors, t.workspace⟩
  else
    ⟨1, t.output,
      t.errors ++ "Error: " ++ toString t.failures ++ " of " ++ toString count ++
        " interfaces directories failed\n",
      t.workspace⟩

def sweepDirectories (s : Settings) (mode : Mode) (dirs : List Path) (ws : Workspace) : Effect :=
  ((Tally.mk ws 0 "" "").addAll s mode dirs).effect dirs.length

def perform (mode : Mode) (root : Path) (env : Environment) (ws : Workspace) : Effect :=
  match Settings.effective ws env none with
  | .error e =>
    .failure ws (errorText "loading interfaces configuration" e.message e.detail)
  | .ok s =>
    match ws.interfaceDirectories s.extension root with
    | .error e => .failure ws (searchErrorText root e)
    | .ok [] =>
      .print ws ("💡 No `" ++ Workspace.interfacesName ++ "` directories under " ++ root ++ "\n")
    | .ok dirs => sweepDirectories s mode dirs ws

end Sweep

def sweep (arguments : List String) (env : Environment) (ws : Workspace) : Effect :=
  match Sweep.Request.read arguments with
  | .sweep mode root => Sweep.perform mode root env ws
  | .help topic => .print ws topic.text
  | .nothing => .misuse ws Sweep.Topic.root.text
  | .misuse e => .misuse ws (e.message ++ "\n")

end InterfaceTables.Command
