import InterfaceTables.Command.Generate
import InterfaceTables.Command.Sweep

/-!
The two commands on a real file system. What a command may look at is read into a tree before it
runs, and what it changed in the tree is written back afterwards. The name under which the program is
called selects the command.
-/

namespace InterfaceTables.Command

def placeOf (start : Location) (p : Path) : Location :=
  p.moves.foldl (fun loc step => if step = ".." then loc.tail else step :: loc)
    (if p.isAbsolute then [] else start)

def pathTo (loc : Location) : Path := "/" ++ String.intercalate "/" loc.reverse

def addDirectories : Location → FileTree → FileTree
  | [], tree => tree
  | name :: loc, tree =>
    let tree := addDirectories loc tree
    if (tree.get? (name :: loc)).isSome then tree
    else tree.insert (name :: loc) (.directory directoryMode)

def readEntry (file : Path) : IO Entry := do
  try return .file (← IO.FS.readBinFile file) fileMode
  catch _ => return .file ByteArray.empty 0

def unlistedMode : Nat := 0o300

/-- Adds what stands at a place, and what stands below it down to `depth` levels. What a link leads to
is added without what stands below it. -/
def addEntries (depth : Nat) (loc : Location) (tree : FileTree) : IO FileTree := do
  let file := (← IO.currentDir) / pathTo loc
  let info ← try pure (some (← file.symlinkMetadata)) catch _ => pure none
  match info with
  | none => return tree
  | some info =>
    match info.type with
    | .file => return tree.insert loc (← readEntry file.toString)
    | .symlink =>
      let target ← try pure (← IO.FS.realPath file).toString catch _ => pure ""
      let place := placeOf [] target
      let tree := tree.insert loc (.link target)
      if ← file.isDir then return addDirectories place tree
      else if ← file.pathExists then
        return (addDirectories place.tail tree).insert place (← readEntry file.toString)
      else return tree
    | .dir =>
      let mut tree := addDirectories loc tree
      match depth with
      | 0 => return tree
      | depth + 1 =>
        let children ← try pure (some (← file.readDir)) catch _ => pure none
        match children with
        | none => return tree.insert loc (.directory unlistedMode)
        | some children =>
          for child in children do
            tree ← addEntries depth (child.fileName :: loc) tree
          return tree
    | .other => return tree

def addWay : Location → FileTree → IO FileTree
  | [], tree => return tree
  | name :: loc, tree => do
    let tree ← addWay loc tree
    if (tree.get? (name :: loc)).isSome then return tree else addEntries 0 (name :: loc) tree

def addPath (depth : Nat) (start : Location) (p : Path) (tree : FileTree) : IO FileTree := do
  let loc := placeOf start p
  let tree ← addWay loc tree
  let file := (← IO.currentDir) / pathTo loc
  if ← file.pathExists then
    let real := placeOf [] (← IO.FS.realPath file).toString
    addEntries depth real (addDirectories real.tail tree)
  else return tree

def pathPart (argument : String) : Path :=
  match argument.toList.dropWhile (· ≠ '=') with
  | _ :: rest => String.ofList rest
  | [] => argument

def readMask : IO Nat := do
  let bytes ← try IO.FS.readBinFile "/proc/self/status" catch _ => pure ByteArray.empty
  let line := ((Text.lossyText bytes).splitOn "\n").find? (·.startsWith "Umask:")
  let digits := (line.getD "0022").toList.filter Char.isDigit
  return digits.foldl (fun mask d => 8 * mask + (d.toNat - '0'.toNat)) 0

def readWorkspace (depth : Nat) (arguments : List String) (env : Environment) : IO Workspace := do
  let start := placeOf [] (← IO.currentDir).toString
  let mut tree ← addPath depth start "." FileTree.empty
  for argument in arguments do
    let p := pathPart argument
    tree ← addPath 1 start (p.join "..") tree
    tree ← addPath depth start p tree
  for dir in (Settings.userDirectory? env).toList do
    tree ← addPath 1 start (dir.join "interfaces") tree
  return ⟨tree, start, ← readMask⟩

def needsWriting : Option Entry → Entry → Bool
  | some (.file before _), .file after _ => before.data ≠ after.data
  | some (.directory _), .directory _ => false
  | _, .link _ => false
  | _, _ => true

def writeBack (before after : FileTree) : IO Unit := do
  for (loc, entry) in after.entries do
    if needsWriting (before.get? loc) entry then
      let file := (← IO.currentDir) / pathTo loc
      match entry with
      | .directory _ => IO.FS.createDirAll file
      | .file contents _ =>
        if let some (.link _) := before.get? loc then IO.FS.removeFile file
        IO.FS.writeBinFile file contents
      | .link _ => pure ()

def variableOf (line : String) : Option (String × String) :=
  match line.toList.dropWhile (· ≠ '=') with
  | _ :: value => some (String.ofList (line.toList.takeWhile (· ≠ '=')), String.ofList value)
  | [] => none

def readEnvironment : IO Environment := do
  let bytes ← try IO.FS.readBinFile "/proc/self/environ" catch _ => pure ByteArray.empty
  return ((Text.lossyText bytes).splitOn "\x00").filterMap variableOf

def perform (command : List String → Environment → Workspace → Effect) (depth : Nat)
    (arguments : List String) : IO UInt32 := do
  let env ← readEnvironment
  let ws ← readWorkspace depth arguments env
  let effect := command arguments env ws
  writeBack ws.tree effect.workspace.tree
  IO.print effect.output
  IO.eprint effect.errors
  return effect.exitCode.toUInt32

end InterfaceTables.Command

def main (arguments : List String) : IO UInt32 := do
  if (← IO.appPath).fileName == some "xtask" then
    InterfaceTables.Command.perform InterfaceTables.Command.sweep 64 arguments
  else InterfaceTables.Command.perform InterfaceTables.Command.generate 2 arguments
