import InterfaceTables.Generation.Output
import InterfaceTables.Interface.Loading

/-!
One run of the generator: load the documents of a directory, compile them, and write or check the
generated files. Nothing is written before all documents are loaded and both files are there.
-/

namespace InterfaceTables

structure RunOptions where
  schemaDir : Path
  outputDir : Path
  baseName : String
  mode : Mode
  load : LoadOptions
deriving DecidableEq

structure ArtifactReport where
  kind : ArtifactKind
  path : Path
  checksum : Checksum
deriving DecidableEq

structure Report where
  mode : Mode
  baseName : String
  interfaceCount : Nat
  artifacts : List ArtifactReport
deriving DecidableEq

def Artifact.report (a : Artifact) (dir : Path) : ArtifactReport :=
  ⟨a.kind, a.path dir, Checksum.ofText a.contents⟩

def compile (documents : List Document) (baseName : String) : Except RunError Artifacts :=
  let records := documents.map Document.record
  match Collision.find? records with
  | some c => .error (.collision c)
  | none => .ok (render records baseName)

/-- Loads and compiles; how many documents there are and their files. -/
def RunOptions.prepare (o : RunOptions) (ws : Workspace) : Except RunError (Nat × Artifacts) :=
  match ws.loadDirectory o.schemaDir o.load with
  | .error e => .error (.schema e)
  | .ok documents =>
    match compile documents o.baseName with
    | .error e => .error e
    | .ok artifacts => .ok (documents.length, artifacts)

def Document.event (d : Document) : Event := .loaded d.source d.name d.mappings.length

def RunOptions.loadEvents (o : RunOptions) (ws : Workspace) : List Event :=
  match ws.discover o.schemaDir o.load.extension with
  | .error _ => []
  | .ok files => (ws.loadedFiles o.load files).map Document.event

def RunOptions.report (o : RunOptions) (count : Nat) (artifacts : Artifacts) : Report where
  mode := o.mode
  baseName := o.baseName
  interfaceCount := count
  artifacts := artifacts.toList.map (·.report o.outputDir)

def RunOptions.finishedEvent (o : RunOptions) (count : Nat) (artifacts : Artifacts) : Event :=
  .finished o.mode count (Checksum.ofText artifacts.header.contents)
    (Checksum.ofText artifacts.source.contents)

def RunOptions.emit (o : RunOptions) (artifacts : Artifacts) (ws : Workspace) : Outcome Unit :=
  match o.mode with
  | .write => artifacts.write o.outputDir ws
  | .check => artifacts.check o.outputDir ws

def run (o : RunOptions) (ws : Workspace) : Outcome Report :=
  match o.prepare ws with
  | .error e => ⟨.error e, ws, o.loadEvents ws⟩
  | .ok (count, artifacts) =>
    let done := o.emit artifacts ws
    match done.result with
    | .error e => ⟨.error e, done.workspace, o.loadEvents ws ++ done.log⟩
    | .ok () =>
      ⟨.ok (o.report count artifacts), done.workspace,
        o.loadEvents ws ++ done.log ++ [o.finishedEvent count artifacts]⟩

end InterfaceTables
