import InterfaceTables.FileTree.Resolve
import InterfaceTables.Text.Utf8

/-!
Reading and changing files by their paths.
-/

namespace InterfaceTables

namespace Workspace

/-! ## Reading -/

def entry (ws : Workspace) (last : LastStep) (p : Path) : Except IoError (Location × Entry) :=
  match ws.resolve last p with
  | .error e => .error e
  | .ok (.absent _ _) => .error .notFound
  | .ok (.entry loc) =>
    match ws.tree.get? loc with
    | some e => .ok (loc, e)
    | none => .error .notFound

def stat (ws : Workspace) (p : Path) : Except IoError (Location × Entry) := ws.entry .followed p

def isFile (ws : Workspace) (p : Path) : Bool :=
  match ws.stat p with
  | .ok (_, .file _ _) => true
  | _ => false

def isDirectory (ws : Workspace) (p : Path) : Bool :=
  match ws.stat p with
  | .ok (_, .directory _) => true
  | _ => false

def readBytes (ws : Workspace) (p : Path) : Except IoError ByteArray :=
  match ws.stat p with
  | .error e => .error e
  | .ok (_, .file contents mode) => if mayRead mode then .ok contents else .error .denied
  | .ok (_, .directory mode) => if mayRead mode then .error .isDirectory else .error .denied
  | .ok (_, .link _) => .error .notFound

def readText (ws : Workspace) (p : Path) : Except IoError String :=
  match ws.readBytes p with
  | .error e => .error e
  | .ok bytes =>
    match String.fromUTF8? bytes with
    | some s => .ok s
    | none => .error .notText

def list (ws : Workspace) (p : Path) : Except IoError (Location × List String) :=
  match ws.stat p with
  | .error e => .error e
  | .ok (loc, .directory mode) =>
    if mayRead mode then .ok (loc, ws.tree.sortedNames loc) else .error .denied
  | .ok _ => .error .notDirectory

def mode (ws : Workspace) (p : Path) : Except IoError Nat :=
  match ws.stat p with
  | .error e => .error e
  | .ok (_, .file _ mode) => .ok mode
  | .ok (_, .directory mode) => .ok mode
  | .ok (_, .link _) => .error .notFound

/-! ## Changing -/

def insert (ws : Workspace) (loc : Location) (e : Entry) : Workspace :=
  { ws with tree := ws.tree.insert loc e }

def mayChange (ws : Workspace) (dir : Location) : Bool :=
  match ws.tree.get? dir with
  | some (.directory mode) => mayWrite mode && maySearch mode
  | _ => false

def add (ws : Workspace) (dir : Location) (name : String) (e : Entry) : Except IoError Workspace :=
  if ws.mayChange dir then .ok (ws.insert (name :: dir) e) else .error .denied

def makeDirectoryAt (ws : Workspace) (start : Location) (steps : List String) :
    Except IoError Workspace :=
  match ws.tree.resolveFrom .kept FileTree.maxLinks start steps with
  | .error e => .error e
  | .ok (.entry _) => .error .alreadyExists
  | .ok (.absent dir name) => ws.add dir name (.directory (ws.masked 0o777))

def leadsToDirectory (ws : Workspace) (start : Location) (steps : List String) : Bool :=
  match ws.tree.resolveFrom .followed FileTree.maxLinks start steps with
  | .ok (.entry loc) =>
    match ws.tree.get? loc with
    | some (.directory _) => true
    | _ => false
  | _ => false

structure Change where
  result : Except IoError Unit
  workspace : Workspace

def ensureDirectoryAt (ws : Workspace) (start : Location) (steps : List String) : Change :=
  match ws.makeDirectoryAt start steps with
  | .ok ws' => ⟨.ok (), ws'⟩
  | .error e =>
    if e = .alreadyExists ∧ ws.leadsToDirectory start steps then ⟨.ok (), ws⟩ else ⟨.error e, ws⟩

/-- Makes a directory at the end of `attempt`. If there is nowhere to put it, first makes the
directories along the moves `above`, which come last first, and tries again. -/
def ensureChain (ws : Workspace) (start : Location) (attempt : List String) :
    (above : List String) → Change
  | [] => ws.ensureDirectoryAt start attempt
  | name :: above =>
    let first := ws.ensureDirectoryAt start attempt
    match first.result with
    | .error .notFound =>
      let parent := ensureChain ws start (name :: above).reverse above
      match parent.result with
      | .ok () => parent.workspace.ensureDirectoryAt start attempt
      | .error e => ⟨.error e, parent.workspace⟩
    | _ => first

/-- Makes a directory and those above it. The empty path and the root need none. A dot at the end of
the path is no directory of its own, but the path is tried with it. -/
def ensureDirectory (ws : Workspace) (p : Path) : Change :=
  if p.isEmpty || (p.isAbsolute && p.moves.isEmpty) then ⟨.ok (), ws⟩
  else match p.fault? with
    | some e => ⟨.error e, ws⟩
    | none =>
      let attempt := if p.trimmedSteps.getLast? = some "." then p.moves ++ ["."] else p.moves
      ws.ensureChain (ws.start p) attempt p.moves.reverse.tail

def stagedPath (ws : Workspace) (dir : Path) : Path := (ws.workingPath.join dir).join ".tmp000000"

/-- Why the whole path of a file that is staged at `dir` cannot be followed to where `dir` starts. -/
def outOfReach? (ws : Workspace) (dir : Path) : Option IoError :=
  let fault := (ws.stagedPath dir).fault?
  if ws.tree.passable (ws.start dir) then fault else some (fault.getD .denied)

def staging (ws : Workspace) (dir : Path) : Except IoError Location :=
  match ws.outOfReach? dir with
  | some e => .error e
  | none =>
    match ws.stat (if dir.isEmpty then "." else dir) with
    | .error e => .error e
    | .ok (loc, .directory _) => if ws.mayChange loc then .ok loc else .error .denied
    | .ok _ => .error .notDirectory

def namesEntry (p : Path) : Bool :=
  match p.trimmedSteps.getLast? with
  | none => false
  | some step => step ≠ "." && step ≠ ".."

/-- Puts a file that was finished in the directory `made` at a path, in place of a file or link that
may be there. A directory that leads to `made` counts as one that is not empty. -/
def place (ws : Workspace) (made : Location) (p : Path) (contents : ByteArray) (mode : Nat) :
    Except IoError Workspace :=
  match ws.resolveTrimmed .kept p with
  | .error .nulInName => .error .invalidArgument
  | .error e => .error e
  | .ok (.absent dir name) =>
    if p.endsInSlash then .error .notDirectory else ws.add dir name (.file contents mode)
  | .ok (.entry loc) =>
    if !namesEntry p then .error .busy
    else if p.endsInSlash then .error .notDirectory
    else if loc.isSuffixOf made then .error .notEmpty
    else if !ws.mayChange loc.tail then .error .denied
    else match ws.tree.get? loc with
      | some (.directory _) => .error .isDirectory
      | _ => .ok (ws.insert loc (.file contents mode))

def placeStaged (ws : Workspace) (dir : Path) (made : Location) (p : Path) (contents : ByteArray)
    (mode : Nat) : Except IoError Workspace :=
  match ws.staging dir with
  | .error e => .error e
  | .ok loc => if loc = made then ws.place made p contents mode else .error .notFound

/-- Removes a file that was finished in the directory `made`. Where `dir` leads there no more, the file
is not found and stays, under a name that nothing else has. -/
def dropStaged (ws : Workspace) (dir : Path) (made : Location) (contents : ByteArray) (mode : Nat) :
    Workspace :=
  let left := ws.insert (ws.tree.spareName made :: made) (.file contents mode)
  match ws.staging dir with
  | .error _ => left
  | .ok loc => if loc = made then ws else left

/-- Opens a file for writing and fills it; a file that is there keeps its mode, and links lead to the
file that is written. -/
def writeFile (ws : Workspace) (p : Path) (contents : ByteArray) : Except IoError Workspace :=
  match ws.resolve .written p with
  | .error e => .error e
  | .ok (.absent dir name) => ws.add dir name (.file contents (ws.masked 0o666))
  | .ok (.entry loc) =>
    match ws.tree.get? loc with
    | some (.file _ mode) =>
      if mayWrite mode then .ok (ws.insert loc (.file contents mode)) else .error .denied
    | _ => .error .isDirectory

def makeLink (ws : Workspace) (p target : Path) : Except IoError Workspace :=
  if p.holdsNul then .error .nulInName
  else match target.fault?, ws.resolveTrimmed .kept p with
    | some e, _ => .error e
    | none, .error e => .error e
    | none, .ok (.entry _) => .error .alreadyExists
    | none, .ok (.absent dir name) =>
      if p.endsInSlash then .error .notFound else ws.add dir name (.link target)

def setMode (ws : Workspace) (p : Path) (mode : Nat) : Except IoError Workspace :=
  match ws.stat p with
  | .error e => .error e
  | .ok (loc, .file contents _) => .ok (ws.insert loc (.file contents (permissionBits mode)))
  | .ok (loc, .directory _) => .ok (ws.insert loc (.directory (permissionBits mode)))
  | .ok (_, .link _) => .error .notFound

/-! ## Removing -/

def erase (ws : Workspace) (loc : Location) : Except IoError Workspace :=
  if ws.mayChange loc.tail then .ok { ws with tree := ws.tree.erase loc } else .error .denied

/-- Whether a directory can be emptied: it can be listed and, if it holds anything, changed, and so can
all directories in it. -/
def mayClear (ws : Workspace) (loc : Location) : Bool :=
  ws.tree.entries.all fun (l, e) =>
    match e with
    | .directory mode =>
      !loc.isSuffixOf l || (mayRead mode && ((ws.tree.names l).isEmpty || ws.mayChange l))
    | _ => true

def removeEmpty (ws : Workspace) (p : Path) : Except IoError Workspace :=
  match ws.resolveTrimmed .kept p with
  | .error e => .error e
  | .ok (.absent _ _) => .error .notFound
  | .ok (.entry loc) =>
    match p.trimmedSteps.getLast? with
    | none => .error .busy
    | some step =>
      if step = "." then .error .invalidArgument
      else if step = ".." then .error .notEmpty
      else match ws.tree.get? loc with
        | some (.directory _) => ws.erase loc
        | _ => .error .notDirectory

def Change.ofExcept (ws : Workspace) : Except IoError Workspace → Change
  | .ok ws' => ⟨.ok (), ws'⟩
  | .error e => ⟨.error e, ws⟩

/-- Removes a file, a link or a directory with all it holds. What a directory holds goes first, even if
the directory itself then stays. -/
def remove (ws : Workspace) (p : Path) : Change :=
  match ws.entry .kept p with
  | .error e => ⟨.error e, ws⟩
  | .ok (loc, .directory _) =>
    if !ws.mayClear loc then ⟨.error .denied, ws⟩
    else
      let cleared := { ws with tree := ws.tree.clear loc }
      match cleared.removeEmpty p with
      | .error .notFound => ⟨.ok (), cleared⟩
      | change => .ofExcept cleared change
  | .ok (loc, _) => .ofExcept ws (ws.erase loc)

end Workspace

end InterfaceTables
