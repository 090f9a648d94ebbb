import InterfaceTables.Settings.Basic
import InterfaceTables.Settings.Error

/-!
From merged layers to settings. Texts may be given by any single value, and truth values by numbers
and a few words.
-/

namespace InterfaceTables

namespace Setting

def Scalar.asText? : Scalar → Option String
  | .null => none
  | .boolean b => some (boolText b)
  | .integer i => some (toString i)
  | .double x => some (doubleLayout.text x)
  | .text s => some s

def asText (key : String) (v : Setting) : Except SettingsError String :=
  let wrong := SettingsError.wrongType key v.shape "a string" v.origin?
  match v with
  | .scalar _ value =>
    match value.asText? with
    | some s => .ok s
    | none => .error wrong
  | _ => .error wrong

def asOptionalText (key : String) (v : Setting) : Except SettingsError (Option String) :=
  match v with
  | .scalar _ .null => .ok none
  | _ => (asText key v).map some

def wordTruth? (word : String) : Option Bool :=
  if word = "1" ∨ word = "true" ∨ word = "on" ∨ word = "yes" then some true
  else if word = "0" ∨ word = "false" ∨ word = "off" ∨ word = "no" then some false
  else none

def asBoolean (key : String) (v : Setting) : Except SettingsError Bool :=
  let wrong (shape : Shape) := SettingsError.wrongType key shape "a boolean" v.origin?
  match v with
  | .scalar _ (.boolean b) => .ok b
  | .scalar _ (.integer i) => .ok (i ≠ 0)
  | .scalar _ (.double x) => .ok !x.isZero
  | .scalar _ (.text s) =>
    let word := Text.toLowercase s
    match wordTruth? word with
    | some b => .ok b
    | none => .error (wrong (.scalar (.text word)))
  | v => .error (wrong v.shape)

/-- One group of settings: a table, or a list with its settings in order. -/
inductive Group where
  | table (fields : Fields)
  | list (items : List Setting)

def group (fields : Fields) (key name : String) : Except SettingsError Group :=
  match fields.lookup key with
  | none => .ok (.table [])
  | some (.table _ inner) => .ok (.table inner)
  | some (.list _ items) => .ok (.list items)
  | some (.scalar _ value) => .error (.notGroup name value)

/-- The setting of a group with that name or place, decoded, or what stands in for a missing one. -/
def Group.decode {α : Type} (g : Group) (groupKey name : String) (index : Nat) (missing : α)
    (read : String → Setting → Except SettingsError α) : Except SettingsError α :=
  match g with
  | .table fields =>
    match fields.lookup name with
    | some v => read (groupKey ++ "." ++ name) v
    | none => .ok missing
  | .list items =>
    match items[index]? with
    | some v => read (groupKey ++ "[" ++ toString index ++ "]") v
    | none => .ok missing

end Setting

def Settings.ofFields (fields : Setting.Fields) : Except SettingsError Settings := do
  let output ← Setting.group fields "output" "OutputConfig"
  let lead ← output.decode "output" "prefix" 0 "" Setting.asText
  let outputDir ← output.decode "output" "dir" 1 none Setting.asOptionalText
  let schema ← Setting.group fields "schema" "SchemaConfig"
  let extension ← schema.decode "schema" "extension" 0 "json" Setting.asText
  let applyDefaults ← schema.decode "schema" "apply_defaults" 1 false Setting.asBoolean
  return { lead, outputDir, extension, applyDefaults }

end InterfaceTables
