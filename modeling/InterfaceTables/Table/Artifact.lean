import InterfaceTables.Table.Record
import InterfaceTables.Table.Template

/-!
The generated files: a header that declares every interface and a source that defines them. Both
depend only on the records, their order and the base name.
-/

namespace InterfaceTables

inductive ArtifactKind where
  | header
  | source
deriving DecidableEq

def ArtifactKind.text : ArtifactKind → String
  | .header => "header"
  | .source => "source"

def ArtifactKind.extension : ArtifactKind → String
  | .header => "h"
  | .source => "c"

def ArtifactKind.fileName (k : ArtifactKind) (baseName : String) : String :=
  baseName ++ "." ++ k.extension

structure Artifact where
  kind : ArtifactKind
  fileName : String
  contents : String
deriving DecidableEq

structure Artifacts where
  header : Artifact
  source : Artifact
deriving DecidableEq

def Artifacts.toList (a : Artifacts) : List Artifact := [a.header, a.source]

def MappingRecord.definition (m : MappingRecord) : String :=
  Template.mapping.fill
    [("endpoint", m.endpoint),
     ("type", m.type),
     ("reliability", m.reliability),
     ("explicit_timestamp", m.explicitTimestamp),
     ("allow_unset", m.allowUnset)]

def InterfaceRecord.definition (r : InterfaceRecord) : String :=
  Template.definition.fill
    [("mappings_symbol", r.mappingsSymbol),
     ("mappings_length", toString r.mappingsLength),
     ("mappings", String.join (r.mappings.map MappingRecord.definition)),
     ("symbol", r.symbol),
     ("name", r.name),
     ("version_major", toString r.versionMajor),
     ("version_minor", toString r.versionMinor),
     ("type", r.kind),
     ("ownership", r.ownership),
     ("aggregation", r.aggregation)]

def InterfaceRecord.declaration (r : InterfaceRecord) : String :=
  Template.declaration.fill [("symbol", r.symbol)]

def joinLines (texts : List String) : String := String.intercalate "\n" texts

def headerText (records : List InterfaceRecord) (baseName : String) : String :=
  Template.header.fill
    [("output_filename", baseName),
     ("include_guard", Symbol.includeGuard baseName),
     ("interfaces_declarations", joinLines (records.map InterfaceRecord.declaration))]

def sourceText (records : List InterfaceRecord) (baseName : String) : String :=
  Template.source.fill
    [("output_filename", baseName),
     ("interfaces_definitions", joinLines (records.map InterfaceRecord.definition))]

def render (records : List InterfaceRecord) (baseName : String) : Artifacts where
  header := ⟨.header, ArtifactKind.header.fileName baseName, headerText records baseName⟩
  source := ⟨.source, ArtifactKind.source.fileName baseName, sourceText records baseName⟩

end InterfaceTables
