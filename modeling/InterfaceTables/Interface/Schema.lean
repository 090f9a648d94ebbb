import InterfaceTables.Interface.Document
import InterfaceTables.Interface.SchemaError
import InterfaceTables.Json.Reader

/-!
From JSON to interface documents. The fields are checked in a fixed order and the first violation
is the error; fields that the schema does not know are not looked at.
-/

namespace InterfaceTables

namespace Schema

structure Fields where
  place : Place
  entries : List (String × Json)

abbrev Check (α : Type) := Except SchemaCause α

def Fields.ofJson (place : Place) : Json → Check Fields
  | .object entries => .ok ⟨place, entries⟩
  | _ => .error (.notAnObject place)

def Fields.get? (f : Fields) (key : String) : Option Json := f.entries.lookup key

def Fields.field (f : Fields) (key : String) : Field := ⟨f.place, key⟩

def Fields.text (f : Fields) (key : String) : Check String :=
  match f.get? key with
  | none => .error (.missingField (f.field key))
  | some (.string s) =>
    if s.isEmpty then .error (.wrongType (f.field key) .nonEmptyString) else .ok s
  | some _ => .error (.wrongType (f.field key) .nonEmptyString)

def Fields.boolean (f : Fields) (key : String) (default : Option Bool) : Check Bool :=
  match f.get? key, default with
  | some (.boolean b), _ => .ok b
  | some _, _ => .error (.wrongType (f.field key) .boolean)
  | none, some b => .ok b
  | none, none => .error (.missingField (f.field key))

def Fields.version (f : Fields) (key : String) : Check Nat :=
  match f.get? key with
  | none => .error (.missingField (f.field key))
  | some (.number (.unsigned n)) =>
    if n ≤ 0xffffffff then .ok n else .error (.malformed (f.field key) (toString n) .version)
  | some _ => .error (.wrongType (f.field key) .nonNegativeInteger)

def Fields.choice {α : Type} (f : Fields) (key : String) (ofTag? : String → Option α)
    (default : Option α) : Check α :=
  match f.get? key, default with
  | none, some a => .ok a
  | none, none => .error (.missingField (f.field key))
  | some (.string s), _ =>
    match ofTag? s with
    | some a => .ok a
    | none => .error (.unknownValue (f.field key) (Text.quoted s))
  | some _, _ => .error (.wrongType (f.field key) .string)

def Fields.reliability (f : Fields) (default : Option Reliability) : Check Reliability :=
  let key := "reliability"
  match f.get? key, default with
  | none, some r => .ok r
  | none, none => .error (.missingField (f.field key))
  | some (.number (.unsigned n)), _ =>
    match Reliability.ofLevel? n with
    | some r => .ok r
    | none => .error (.unknownValue (f.field key) (Json.Number.text (.unsigned n)))
  | some (.number n), _ => .error (.unknownValue (f.field key) n.text)
  | some (.string s), _ =>
    match Reliability.ofTag? s with
    | some r => .ok r
    | none => .error (.unknownValue (f.field key) (Text.quoted s))
  | some _, _ => .error (.wrongType (f.field key) .reliability)

def isAsciiLetter (c : Char) : Bool := ('a' ≤ c && c ≤ 'z') || ('A' ≤ c && c ≤ 'Z')

def isNameChar (c : Char) : Bool :=
  isAsciiLetter c || ('0' ≤ c && c ≤ '9') || c == '.' || c == '-' || c == '_'

/-- A letter followed by letters, digits, dots, dashes and underscores. -/
def isName (s : String) : Bool :=
  match s.toList with
  | [] => false
  | c :: rest => isAsciiLetter c && rest.all isNameChar

def isEndpointChar (c : Char) : Bool :=
  c != '"' && c != '\\' && 0x20 ≤ c.toNat && c.toNat != 0x7f

/-- A slash followed by anything but quotes, backslashes and control characters. -/
def isEndpoint (s : String) : Bool :=
  match s.toList with
  | [] => false
  | c :: rest => c == '/' && rest.all isEndpointChar

/-- The key that holds the name. The short one counts only if the long one is absent. -/
def Fields.nameKey (f : Fields) : String :=
  if (f.get? "interface_name").isNone && (f.get? "name").isSome then "name" else "interface_name"

def filled {α : Type} (applyDefaults : Bool) (a : α) : Option α :=
  if applyDefaults then some a else none

def mapping (applyDefaults : Bool) (f : Fields) : Check Mapping := do
  let endpoint ← f.text "endpoint"
  unless isEndpoint endpoint do
    throw (.malformed (f.field "endpoint") endpoint .endpoint)
  let type ← f.choice "type" ValueType.ofTag? none
  let reliability ← f.reliability (filled applyDefaults .unreliable)
  let explicitTimestamp ← f.boolean "explicit_timestamp" (filled applyDefaults false)
  let allowUnset ← f.boolean "allow_unset" (filled applyDefaults false)
  return { endpoint, type, reliability, explicitTimestamp, allowUnset }

def mappings (applyDefaults : Bool) : (index : Nat) → List Json → Check (List Mapping)
  | _, [] => .ok []
  | index, v :: rest => do
    let f ← Fields.ofJson (.mapping index) v
    let m ← mapping applyDefaults f
    let ms ← mappings applyDefaults (index + 1) rest
    return m :: ms

def Fields.mappingItems (f : Fields) : Check (List Json) :=
  match f.get? "mappings" with
  | none => .error (.missingField (f.field "mappings"))
  | some (.array []) => .error .noMappings
  | some (.array items) => .ok items
  | some _ => .error (.wrongType (f.field "mappings") .array)

def name (f : Fields) : Check String := do
  let key := f.nameKey
  let s ← f.text key
  unless isName s do
    throw (.malformed (f.field key) s .name)
  return s

def document (applyDefaults : Bool) (source : Path) (v : Json) : Check Document := do
  let f ← Fields.ofJson .root v
  let name ← name f
  let versionMajor ← f.version "version_major"
  let versionMinor ← f.version "version_minor"
  let kind ← f.choice "type" InterfaceKind.ofTag? none
  let ownership ← f.choice "ownership" Ownership.ofTag? none
  let aggregation ← f.choice "aggregation" Aggregation.ofTag? (filled applyDefaults .individual)
  let items ← f.mappingItems
  let mappings ← mappings applyDefaults 0 items
  return { name, versionMajor, versionMinor, kind, ownership, aggregation, mappings, source }

end Schema

/-- The document that a JSON text describes. With `applyDefaults`, absent optional fields are filled
in. -/
def Document.parse (applyDefaults : Bool) (source : Path) (text : String) :
    Except SchemaError Document :=
  match Json.parse text with
  | .error e => .error ⟨source, .notJson e⟩
  | .ok v =>
    match Schema.document applyDefaults source v with
    | .error cause => .error ⟨source, cause⟩
    | .ok d => .ok d

end InterfaceTables
