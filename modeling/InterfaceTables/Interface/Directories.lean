import InterfaceTables.Interface.Loading

/-!
The directories of a tree that hold interface documents: those named `interfaces` with at least one
such file, found without passing through links or directories of build output.
-/

namespace InterfaceTables

inductive SearchError where
  -- A directory on the way cannot be listed.
  | unlistable (dir : Path) (e : IoError)
  -- A directory that counts by its name cannot be listed.
  | schema (e : SchemaError)
deriving DecidableEq

namespace Workspace

def interfacesName : String := "interfaces"

def isPruned (name : String) : Bool := name == "target" || name == ".git" || name == "build"

def ownDirectory (ws : Workspace) (extension : String) (name : Option String) (dir : Path) :
    Except SearchError (List Path) :=
  if name == some interfacesName then
    match ws.discover dir extension with
    | .error e => .error (.schema e)
    | .ok files => .ok (if files.isEmpty then [] else [dir])
  else .ok []

def gather (find : String → Except SearchError (List Path)) :
    (names : List String) → Except SearchError (List Path)
  | [] => .ok []
  | name :: rest => do
    let here ← find name
    let others ← gather find rest
    return here ++ others

/-- The directories below a path, each before those in it, down to `depth` levels. -/
def directoriesBelow (ws : Workspace) (extension : String) :
    (depth : Nat) → Path → Except SearchError (List Path)
  | 0, _ => .ok []
  | depth + 1, dir =>
    match ws.list dir with
    | .error e => .error (.unlistable dir e)
    | .ok (loc, names) =>
      gather (fun name =>
        match isPruned name, ws.tree.get? (name :: loc) with
        | false, some (.directory _) => do
          let own ← ws.ownDirectory extension (some name) (dir.join name)
          let below ← directoriesBelow ws extension depth (dir.join name)
          return own ++ below
        | _, _ => .ok []) names

/-- The directories at or below a path. A link is looked into but does not count itself. -/
def interfaceDirectories (ws : Workspace) (extension : String) (root : Path) :
    Except SearchError (List Path) :=
  let below := ws.directoriesBelow extension (ws.tree.height + 1) root
  match ws.entry .kept root with
  | .error e => .error (.unlistable root e)
  | .ok (_, .directory _) => do
    let own ← ws.ownDirectory extension root.fileName? root
    return own ++ (← below)
  | .ok (_, .file _ _) => .ok []
  | .ok (_, .link _) => if ws.isFile root then .ok [] else below

end Workspace

end InterfaceTables
