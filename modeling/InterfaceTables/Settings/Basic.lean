import InterfaceTables.Generation.Run
import InterfaceTables.Toml.Writer

/-!
The settings of the generator, and what they make of a directory of documents.
-/

namespace InterfaceTables

structure Settings where
  -- What is put in front of the names of the generated files.
  lead : String := ""
  -- Where the generated files go, if not beside the documents.
  outputDir : Option Path := none
  extension : String := "json"
  applyDefaults : Bool := false
deriving DecidableEq

namespace Settings

def baseName (s : Settings) : String := InterfaceTables.baseName s.lead

def load (s : Settings) : LoadOptions where
  extension := s.extension
  applyDefaults := s.applyDefaults

def runOptions (s : Settings) (schemaDir : Path) (mode : Mode) : RunOptions where
  schemaDir := schemaDir
  outputDir := s.outputDir.getD schemaDir
  baseName := s.baseName
  mode := mode
  load := s.load

def override (s : Settings) (lead : Option String) (outputDir : Option Path) : Settings :=
  { s with lead := lead.getD s.lead, outputDir := outputDir.or s.outputDir }

def toToml (s : Settings) : String :=
  Toml.writeHeader "output" ++
    Toml.writeField "prefix" (Toml.writeText s.lead) ++
    (match s.outputDir with
      | some dir => Toml.writeField "dir" (Toml.writeText dir)
      | none => "") ++
    "\n" ++
    Toml.writeHeader "schema" ++
    Toml.writeField "extension" (Toml.writeText s.extension) ++
    Toml.writeField "apply_defaults" (Toml.writeBoolean s.applyDefaults)

def save (s : Settings) (p : Path) (ws : Workspace) : Except IoError Workspace :=
  ws.writeFile p s.toToml.toUTF8

end Settings

end InterfaceTables
