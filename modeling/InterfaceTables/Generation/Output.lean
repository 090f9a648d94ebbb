import InterfaceTables.Diff.Hunk
import InterfaceTables.FileTree.Access
import InterfaceTables.Generation.Error
import InterfaceTables.Generation.Event

/-!
The generated files on disk: writing both, or checking that both are there and up to date.
-/

namespace InterfaceTables

structure Outcome (α : Type) where
  result : Except RunError α
  workspace : Workspace
  log : List Event

def Outcome.logFirst {α : Type} (event : Event) (o : Outcome α) : Outcome α :=
  { o with log := event :: o.log }

namespace Artifact

def path (a : Artifact) (dir : Path) : Path := dir.join a.fileName

def bytes (a : Artifact) : ByteArray := a.contents.toUTF8

/-- The mode that the file will have: that of what stands at its path, or that of a new file. -/
def mode (a : Artifact) (ws : Workspace) (dir : Path) : Nat :=
  match ws.mode (a.path dir) with
  | .ok mode => mode
  | .error _ => fileMode

def check (a : Artifact) (ws : Workspace) (dir : Path) : Except Mismatch Unit :=
  match ws.readBytes (a.path dir) with
  | .error .notFound => .error (.missingArtifact a.kind)
  | .error e => .error (.unreadable a.kind e)
  | .ok existing =>
    if existing.data = a.bytes.data then .ok ()
    else .error (.stale a.kind (Diff.unified (Text.lossyText existing) a.contents a.fileName))

def checkEvents (a : Artifact) (dir : Path) : Except Mismatch Unit → List Event
  | .ok () => [.upToDate (a.path dir)]
  | .error (.stale kind _) => [.stale kind (a.path dir)]
  | .error _ => []

end Artifact

namespace Artifacts

/-- Puts files in their places, one after the other up to the first that is refused; each comes with
its mode. That one and those after it are dropped. -/
def putAll (put : Workspace → Artifact → Nat → Except IoError Workspace)
    (drop : Workspace → Artifact → Nat → Workspace) (dir : Path) (ws : Workspace) :
    List (Artifact × Nat) → Outcome Unit
  | [] => ⟨.ok (), ws, []⟩
  | (a, mode) :: rest =>
    match put ws a mode with
    | .error e =>
      ⟨.error (.write (a.path dir) e), rest.foldl (fun ws f => drop ws f.1 f.2) (drop ws a mode), []⟩
    | .ok ws' => (putAll put drop dir ws' rest).logFirst (.wrote (a.path dir))

def placeAll (dir : Path) (made : Location) : Workspace → List (Artifact × Nat) → Outcome Unit :=
  putAll (fun ws a mode => ws.placeStaged dir made (a.path dir) a.bytes mode)
    (fun ws a mode => ws.dropStaged dir made a.bytes mode) dir

/-- Makes the directory and puts both files there. All that can be told before the first file is
replaced, such as the modes, is settled before. -/
def write (as : Artifacts) (dir : Path) (ws : Workspace) : Outcome Unit :=
  let made := ws.ensureDirectory dir
  match made.result with
  | .error e => ⟨.error (.write dir e), made.workspace, []⟩
  | .ok () =>
    match made.workspace.staging dir with
    | .error e => ⟨.error (.write (as.header.path dir) e), made.workspace, []⟩
    | .ok loc =>
      placeAll dir loc made.workspace (as.toList.map fun a => (a, a.mode made.workspace dir))

def compareAll (compare : Artifact → Except Mismatch Unit) (dir : Path) :
    List Artifact → Except RunError Unit × List Event
  | [] => (.ok (), [])
  | a :: rest =>
    match compare a with
    | .error m => (.error (.check (a.path dir) m), a.checkEvents dir (.error m))
    | .ok () =>
      let (result, log) := compareAll compare dir rest
      (result, a.checkEvents dir (.ok ()) ++ log)

def checkAll (dir : Path) (ws : Workspace) : List Artifact → Except RunError Unit × List Event :=
  compareAll (·.check ws dir) dir

def check (as : Artifacts) (dir : Path) (ws : Workspace) : Outcome Unit :=
  if ws.isDirectory dir then
    let (result, log) := checkAll dir ws as.toList
    ⟨result, ws, log⟩
  else ⟨.error (.check dir .missingDirectory), ws, []⟩

end Artifacts

end InterfaceTables
