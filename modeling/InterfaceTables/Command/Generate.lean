import InterfaceTables.Command.Effect
import InterfaceTables.Settings.Loading

/-!
The command that generates the tables of one directory of documents, or checks them.
-/

namespace InterfaceTables.Command

namespace Generate

inductive Choice where
  | lead
  | outputDir
  | check
  | config
  | saveConfig
  | help
  | version
deriving DecidableEq

def form : Form Choice where
  options := [
    { id := .lead, name := "output-prefix", otherNames := ["output_prefix"], short := some 'p',
      purpose := .value "OUTPUT_PREFIX" true },
    { id := .outputDir, name := "output-dir", otherNames := ["output_dir"], short := some 'd',
      purpose := .value "OUTPUT_DIR" false },
    { id := .check, name := "check", short := some 'c', purpose := .switch },
    { id := .config, name := "config", purpose := .value "CONFIG" false },
    { id := .saveConfig, name := "save-config", purpose := .value "FILE" false },
    { id := .help, name := "help", short := some 'h', purpose := .help },
    { id := .version, name := "version", short := some 'V', purpose := .version }]
  operand := "<JSON_DIR>"

def helpText : String :=
  "Generates C interfaces definitions from .json definitions\n" ++
  "\n" ++
  "Usage: generate-interfaces [OPTIONS] <JSON_DIR>\n" ++
  "\n" ++
  "Arguments:\n" ++
  "  <JSON_DIR>  Directory containing the interfaces .json file(s)\n" ++
  "\n" ++
  "Options:\n" ++
  "  -p, --output-prefix <OUTPUT_PREFIX>  Prefix to add to all generated sources\n" ++
  "  -d, --output-dir <OUTPUT_DIR>        " ++
  "Directory where the generated sources will be stored (default: JSON_DIR)\n" ++
  "  -c, --check                          " ++
  "Check if previously generated interfaces are up to date\n" ++
  "      --config <CONFIG>                Additional configuration file\n" ++
  "      --save-config <FILE>             " ++
  "Write the effective configuration to this file and exit\n" ++
  "  -h, --help                           Print help\n" ++
  "  -V, --version                        Print version\n"

def versionText : String := "generate-interfaces 0.1.0\n"

structure Request where
  schemaDir : Path
  lead : Option String
  outputDir : Option Path
  mode : Mode
  config : Option Path
  saveConfig : Option Path
deriving DecidableEq

def Request.ofArguments (a : Arguments Choice) : Except Stop Request :=
  match a.operand with
  | none => .error (.usage .missingOperand)
  | some schemaDir => .ok {
      schemaDir
      lead := a.value? .lead
      outputDir := a.value? .outputDir
      mode := if a.has .check then .check else .write
      config := a.value? .config
      saveConfig := a.value? .saveConfig }

def Request.read (arguments : List String) : Except Stop Request :=
  match form.read arguments with
  | .error stop => .error stop
  | .ok a => Request.ofArguments a

/-- The settings for a request: those in effect, and over them those that it gives itself. -/
def Request.settings (r : Request) (env : Environment) (ws : Workspace) :
    Except SettingsError Settings :=
  (Settings.effective ws env r.config).map (·.override r.lead r.outputDir)

def reportText (r : Report) : String :=
  match r.mode with
  | .write =>
    successLine ("Generated " ++ toString r.interfaceCount ++ " interface(s)") ++
      String.join (r.artifacts.map fun a => "   " ++ a.path ++ " (" ++ a.checksum.short ++ ")\n")
  | .check =>
    successLine ("Generated interfaces are up to date (" ++ toString r.interfaceCount ++
      " interface(s))")

def runEffect (o : Outcome Report) : Effect :=
  match o.result with
  | .ok r => .print o.workspace (reportText r)
  | .error e => .failure o.workspace (failureLine e.message ++ diffText e)

def saveEffect (s : Settings) (file : Path) (ws : Workspace) : Effect :=
  match s.save file ws with
  | .ok ws' => .print ws' (successLine ("Configuration written to " ++ file))
  | .error e => .failure ws (failureLine e.message)

def Request.perform (r : Request) (env : Environment) (ws : Workspace) : Effect :=
  match r.settings env ws with
  | .error e => .failure ws (failureLine e.message)
  | .ok s =>
    match r.saveConfig with
    | some file => saveEffect s file ws
    | none => runEffect (run (s.runOptions r.schemaDir r.mode) ws)

end Generate

def generate (arguments : List String) (env : Environment) (ws : Workspace) : Effect :=
  match Generate.Request.read arguments with
  | .error .help => .print ws Generate.helpText
  | .error .version => .print ws Generate.versionText
  | .error (.usage e) => .misuse ws (e.message ++ "\n")
  | .ok r => r.perform env ws

end InterfaceTables.Command
