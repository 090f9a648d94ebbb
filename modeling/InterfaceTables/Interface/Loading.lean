import InterfaceTables.FileTree.Access
import InterfaceTables.Interface.Schema

/-!
Interface documents in directories. The files of a directory are read in the order of their names,
and the first that is no document is the error for all.
-/

namespace InterfaceTables

structure LoadOptions where
  extension : String := "json"
  applyDefaults : Bool := false
deriving DecidableEq

namespace Workspace

/-- The files of a directory that have the given extension. A file in place of the directory has
none. -/
def discover (ws : Workspace) (dir : Path) (extension : String) : Except SchemaError (List Path) :=
  match ws.list dir with
  | .ok (_, names) =>
    let files := names.filter fun name =>
      ws.isFile (dir.join name) && Path.extension? name == some extension
    .ok (files.map dir.join)
  | .error e => if ws.isFile dir then .ok [] else .error ⟨dir, .unlistable e⟩

def loadFile (ws : Workspace) (load : LoadOptions) (p : Path) : Except SchemaError Document :=
  match ws.readText p with
  | .error e => .error ⟨p, .unreadable e⟩
  | .ok text => Document.parse load.applyDefaults p text

def loadFiles (ws : Workspace) (load : LoadOptions) : List Path → Except SchemaError (List Document)
  | [] => .ok []
  | p :: rest => do
    let d ← ws.loadFile load p
    let ds ← loadFiles ws load rest
    return d :: ds

def loadDirectory (ws : Workspace) (dir : Path) (load : LoadOptions) :
    Except SchemaError (List Document) := do
  let files ← ws.discover dir load.extension
  ws.loadFiles load files

def loadedFiles (ws : Workspace) (load : LoadOptions) : List Path → List Document
  | [] => []
  | p :: rest =>
    match ws.loadFile load p with
    | .ok d => d :: loadedFiles ws load rest
    | .error _ => []

end Workspace

end InterfaceTables
