import InterfaceTables.Decimal.Layout
import InterfaceTables.FileTree.IoError
import InterfaceTables.Json.Fault
import InterfaceTables.Path
import InterfaceTables.Settings.Value
import InterfaceTables.Text.Quoted

/-!
Why settings cannot be loaded.
-/

namespace InterfaceTables

/-- Doubles are shown without an exponent and, if they are whole, without a point. -/
def Setting.doubleLayout : Decimal.Layout where
  tie := .up
  positional _ := true
  whole := ""

def Setting.pointedLayout : Decimal.Layout := { Setting.doubleLayout with whole := ".0" }

inductive Setting.Shape where
  | scalar (value : Setting.Scalar)
  | list
  | table
deriving DecidableEq

def Setting.shape : Setting → Setting.Shape
  | .scalar _ value => .scalar value
  | .list _ _ => .list
  | .table _ _ => .table

def Setting.boolText (b : Bool) : String := if b then "true" else "false"

def Setting.Shape.describe : Setting.Shape → String
  | .scalar .null => "unit value"
  | .scalar (.boolean b) => "boolean `" ++ boolText b ++ "`"
  | .scalar (.integer i) => "64-bit integer `" ++ toString i ++ "`"
  | .scalar (.double x) => "floating point `" ++ doubleLayout.text x ++ "`"
  | .scalar (.text s) => "string " ++ Text.quoted s
  | .list => "sequence"
  | .table => "map"

def Setting.Scalar.describe : Setting.Scalar → String
  | .integer i => "integer `" ++ toString i ++ "`"
  | .double x => "floating point `" ++ pointedLayout.text x ++ "`"
  | value => (Setting.Shape.scalar value).describe

inductive FileFault where
  | notToml
  | notJson (e : Json.Error)
  | notTable (shape : Setting.Shape)
deriving DecidableEq

inductive SettingsError where
  | missingFile (name : Path)
  | unknownFormat (path : Path)
  | unreadable (e : IoError)
  | malformed (file : Path) (fault : FileFault)
  | wrongType (key : String) (shape : Setting.Shape) (expected : String)
      (origin : Option Setting.Origin)
  | notGroup (group : String) (value : Setting.Scalar)
deriving DecidableEq

def FileFault.text (file : Path) : FileFault → String
  | .notToml => "TOML parse error"
  | .notJson e => e.message
  | .notTable shape => "invalid type: " ++ shape.describe ++ ", expected a map in " ++ file

def SettingsError.detail : SettingsError → String
  | .missingFile name => "configuration file \"" ++ name ++ "\" not found"
  | .unknownFormat path =>
    "configuration file \"" ++ path ++ "\" is not of a registered file format"
  | .unreadable e => e.message
  | .malformed file fault => fault.text file ++ " in " ++ file
  | .wrongType key shape expected origin =>
    "invalid type: " ++ shape.describe ++ ", expected " ++ expected ++ " for key `" ++ key ++ "`" ++
      (match origin with
        | some o => " in " ++ o
        | none => "")
  | .notGroup group value => "invalid type: " ++ value.describe ++ ", expected struct " ++ group

def SettingsError.message (e : SettingsError) : String := "Configuration error: " ++ e.detail

end InterfaceTables
