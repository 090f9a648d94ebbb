import InterfaceTables.FileTree.IoError
import InterfaceTables.Json.Fault
import InterfaceTables.Path
import InterfaceTables.Text.Quoted

/-!
Why a file is no interface document. Every error names the file; the cause says the rest.
-/

namespace InterfaceTables

inductive Place where
  | root
  | mapping (index : Nat)
deriving DecidableEq

def Place.text : Place → String
  | .root => "document"
  | .mapping i => "mappings[" ++ toString i ++ "]"

structure Field where
  place : Place
  key : String
deriving DecidableEq

def Field.text (f : Field) : String :=
  match f.place with
  | .root => f.key
  | .mapping _ => f.place.text ++ "." ++ f.key

inductive Expected where
  | nonEmptyString
  | nonNegativeInteger
  | string
  | array
  | boolean
  | reliability
deriving DecidableEq

def Expected.text : Expected → String
  | .nonEmptyString => "a non-empty string"
  | .nonNegativeInteger => "a non-negative integer"
  | .string => "a string"
  | .array => "an array"
  | .boolean => "a boolean"
  | .reliability => "an integer or a reliability name"

inductive Defect where
  | name
  | endpoint
  | version
deriving DecidableEq

def Defect.text : Defect → String
  | .name => "must start with a letter and contain only letters, digits, '.', '-' or '_'"
  | .endpoint => "must start with '/' and contain no quotes, backslashes or control characters"
  | .version => "is out of range"

inductive SchemaCause where
  | unreadable (e : IoError)
  | notJson (e : Json.Error)
  | notAnObject (place : Place)
  | missingField (field : Field)
  | wrongType (field : Field) (expected : Expected)
  -- `shown` is the value as the message shows it.
  | unknownValue (field : Field) (shown : String)
  | noMappings
  | malformed (field : Field) (value : String) (defect : Defect)
  | unlistable (e : IoError)
deriving DecidableEq

structure SchemaError where
  path : Path
  cause : SchemaCause
deriving DecidableEq

def IoError.listingText (dir : Path) (e : IoError) : String :=
  "IO error for operation on " ++ dir ++ ": " ++ e.message

def SchemaError.message (e : SchemaError) : String :=
  match e.cause with
  | .unreadable io => "Failed to read " ++ e.path ++ ": " ++ io.message
  | .notJson j => "Invalid JSON in " ++ e.path ++ ": " ++ j.message
  | .notAnObject place => e.path ++ ": " ++ place.text ++ " is not a JSON object"
  | .missingField f => e.path ++ ": missing field `" ++ f.text ++ "`"
  | .wrongType f expected => e.path ++ ": field `" ++ f.text ++ "` must be " ++ expected.text
  | .unknownValue f shown => e.path ++ ": field `" ++ f.text ++ "` has unknown value " ++ shown
  | .noMappings => e.path ++ ": interface declares no mappings"
  | .malformed f value defect =>
    e.path ++ ": field `" ++ f.text ++ "` value " ++ Text.quoted value ++ " " ++ defect.text
  | .unlistable io =>
    "Failed to list schema directory " ++ e.path ++ ": " ++ io.listingText e.path

end InterfaceTables
