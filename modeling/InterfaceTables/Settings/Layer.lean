import InterfaceTables.Decimal.Reader
import InterfaceTables.FileTree.Access
import InterfaceTables.Json.Reader
import InterfaceTables.Settings.Error
import InterfaceTables.Toml.Reader

/-!
Where settings come from: files in two formats, and variables of the environment.
-/

namespace InterfaceTables

namespace Setting

/-! ## Values of the two formats -/

mutual

def ofToml (origin : Origin) : Toml → Setting
  | .text s => .scalar (some origin) (.text s)
  | .integer i => .scalar (some origin) (.integer i)
  | .double x => .scalar (some origin) (.double x)
  | .boolean b => .scalar (some origin) (.boolean b)
  | .moment s => .scalar (some origin) (.text s)
  | .array items => .list (some origin) (ofTomlItems origin items)
  | .table _ fields => .table (some origin) (ofTomlFields origin fields)
  | .tables items => .list (some origin) (ofTomlItems origin items)

def ofTomlItems (origin : Origin) : List Toml → List Setting
  | [] => []
  | v :: rest => ofToml origin v :: ofTomlItems origin rest

def ofTomlFields (origin : Origin) : List (String × Toml) → Fields
  | [] => []
  | (k, v) :: rest => (k, ofToml origin v) :: ofTomlFields origin rest

end

/-- A whole number beyond 64 bits with a sign becomes a double. -/
def Scalar.ofNumber : Json.Number → Scalar
  | .unsigned n => if Decimal.fitsInt64 n then .integer n else .double (Binary64.ofNat n)
  | .negative i => .integer i
  | .double x => .double x

mutual

def ofJson (origin : Origin) : Json → Setting
  | .null => .scalar (some origin) .null
  | .boolean b => .scalar (some origin) (.boolean b)
  | .number n => .scalar (some origin) (Scalar.ofNumber n)
  | .string s => .scalar (some origin) (.text s)
  | .array items => .list (some origin) (ofJsonItems origin items)
  | .object fields => .table (some origin) (ofJsonFields origin fields)

def ofJsonItems (origin : Origin) : List Json → List Setting
  | [] => []
  | v :: rest => ofJson origin v :: ofJsonItems origin rest

def ofJsonFields (origin : Origin) : List (String × Json) → Fields
  | [] => []
  | (k, v) :: rest => (k, ofJson origin v) :: ofJsonFields origin rest

end

/-! ## Files -/

inductive Format where
  | toml
  | json
deriving DecidableEq

def Format.extension : Format → String
  | .toml => "toml"
  | .json => "json"

def Format.all : List Format := [.toml, .json]

def Format.ofName? (name : String) : Option Format :=
  Format.all.find? fun f => Path.extension? name == some f.extension

def Format.parse (format : Format) (file : Path) (text : String) : Except SettingsError Fields :=
  match format with
  | .toml =>
    match Toml.parse? text with
    | none => .error (.malformed file .notToml)
    | some (.table _ fields) => .ok (ofTomlFields file fields)
    | some v => .error (.malformed file (.notTable (ofToml file v).shape))
  | .json =>
    match Json.parse text with
    | .error e => .error (.malformed file (.notJson e))
    | .ok (.object fields) => .ok (ofJsonFields file fields)
    | .ok v => .error (.malformed file (.notTable (ofJson file v).shape))

end Setting

namespace Workspace

def appendExtension (p : Path) (extension : String) : Path :=
  let kept := p.steps.reverse.dropWhile Path.isIdle
  String.intercalate "/" kept.reverse ++ "." ++ extension

/-- The file that a name of settings means, and its format: the file of just that name, or else one
with the extension of a format added. -/
def findSettings (ws : Workspace) (name : Path) :
    Except SettingsError (Path × Setting.Format) :=
  let path := ws.workingPath.join name
  if ws.isFile path then
    match path.fileName?.bind Setting.Format.ofName? with
    | some format => .ok (path, format)
    | none => .error (.unknownFormat path)
  else
    match path.fileName?.bind fun _ => Setting.Format.all.find? fun format =>
      ws.isFile (appendExtension path format.extension) with
    | some format => .ok (appendExtension path format.extension, format)
    | none => .error (.missingFile name)

def relativeMoves : (base target : List String) → List String
  | b :: base, t :: target =>
    if b = t then relativeMoves base target
    else List.replicate (base.length + 1) ".." ++ t :: target
  | base, target => List.replicate base.length ".." ++ target

def relativePath (ws : Workspace) (p : Path) : Path :=
  String.intercalate "/" (relativeMoves ws.workingDir.reverse p.moves)

def readSettings (ws : Workspace) (name : Path) :
    Except SettingsError (Path × Setting.Format × String) :=
  match ws.findSettings name with
  | .error e => .error e
  | .ok (path, format) =>
    match ws.readText path with
    | .error e => .error (.unreadable e)
    | .ok text => .ok (ws.relativePath path, format, text)

/-- The layer of a file. A file that may be missing gives an empty layer if it cannot be read. -/
def fileLayer (ws : Workspace) (required : Bool) (name : Path) :
    Except SettingsError Setting.Fields :=
  match ws.readSettings name with
  | .error e => if required then .error e else .ok []
  | .ok (file, format, text) => format.parse file text

end Workspace

/-! ## The environment -/

abbrev Environment := List (String × String)

namespace Environment

def origin : Setting.Origin := "the environment"

def lead : List Char := "interfaces__".toList

def dotted : List Char → List Char
  | '_' :: '_' :: rest => '.' :: dotted rest
  | c :: rest => c :: dotted rest
  | [] => []

def key? (name : String) : Option String :=
  let cs := (Text.toLowercase name).toList
  if lead.isPrefixOf cs then some (String.ofList (dotted (cs.drop lead.length))) else none

/-- The value of a variable: a truth value or a number if it reads as one, and else a text. -/
def scalar (value : String) : Setting.Scalar :=
  let lower := Text.toLowercase value
  if lower = "true" then .boolean true
  else if lower = "false" then .boolean false
  else match Decimal.readInt64? value.toList with
    | some i => .integer i
    | none =>
      match Decimal.readBinary64? value.toList with
      | some x => .double x
      | none => .text value

def layer (env : Environment) : Setting.Fields :=
  env.filterMap fun (name, value) =>
    (key? name).map fun key => (key, .scalar (some origin) (scalar value))

end Environment

end InterfaceTables
