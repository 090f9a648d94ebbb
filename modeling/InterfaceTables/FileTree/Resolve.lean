import InterfaceTables.FileTree.Basic
import InterfaceTables.FileTree.IoError

/-!
From paths to places. A path is followed step by step from the working directory, or from the root
if it is absolute; every step needs a directory to start in that may be searched, and links on the
way are followed.
-/

namespace InterfaceTables

inductive Target where
  | entry (loc : Location)
  -- Nothing is there, but the directory that would hold it exists.
  | absent (dir : Location) (name : String)
deriving DecidableEq

inductive LastStep where
  -- A link at the end of a path is not followed.
  | kept
  -- It is followed.
  | followed
  -- It is followed to the file that is written, which no slash may come after.
  | written
deriving DecidableEq

namespace Path

def maxName : Nat := 255

def maxLength : Nat := 4095

def holdsNul (p : Path) : Bool := p.toList.contains '\x00'

def fault? (p : Path) : Option IoError :=
  if p.holdsNul then some .nulInName
  else if p.isEmpty then some .notFound
  else if maxLength < p.utf8ByteSize then some .nameTooLong
  else none

def areSlashes (steps : List String) : Bool := steps.all (· == "")

end Path

namespace FileTree

/-- Follows steps from a place. `follow` says what to do with the steps that a link adds. Empty steps
after a missing name come from slashes at the end of a path. -/
def walk (t : FileTree) (last : LastStep)
    (follow : Location → List String → Except IoError Target) :
    Location → List String → Except IoError Target
  | here, [] => .ok (.entry here)
  | here, step :: rest =>
    match t.get? here with
    | some (.directory mode) =>
      if step = "" then walk t last follow here rest
      else if !maySearch mode then .error .denied
      else if step = "." then walk t last follow here rest
      else if step = ".." then walk t last follow here.tail rest
      else if last = .written && !rest.isEmpty && Path.areSlashes rest then .error .isDirectory
      else if Path.maxName < step.utf8ByteSize then .error .nameTooLong
      else match t.get? (step :: here) with
        | none => if Path.areSlashes rest then .ok (.absent here step) else .error .notFound
        | some (.link target) =>
          if rest.isEmpty && last = .kept then .ok (.entry (step :: here))
          else follow (if target.isAbsolute then [] else here) (target.steps ++ rest)
        | some _ => walk t last follow (step :: here) rest
    | _ => .error .notDirectory

def resolveFrom (t : FileTree) (last : LastStep) :
    (links : Nat) → Location → List String → Except IoError Target
  | 0 => walk t last fun _ _ => .error .tooManyLinks
  | links + 1 => walk t last (resolveFrom t last links)

def maxLinks : Nat := 40

/-- Whether a place can be reached from the root by the names that lead to it. -/
def passable (t : FileTree) : Location → Bool
  | [] => true
  | name :: dir =>
    match t.get? dir with
    | some (.directory mode) =>
      maySearch mode && name.utf8ByteSize ≤ Path.maxName && passable t dir
    | _ => false

end FileTree

/-- A tree, the directory that relative paths start from, and the permissions that new entries do not
get. -/
structure Workspace where
  tree : FileTree
  workingDir : Location
  umask : Nat := 0o022

namespace Workspace

def masked (ws : Workspace) (mode : Nat) : Nat := mode ^^^ (mode &&& ws.umask)

def workingPath (ws : Workspace) : Path := "/" ++ String.intercalate "/" ws.workingDir.reverse

def start (ws : Workspace) (p : Path) : Location := if p.isAbsolute then [] else ws.workingDir

def resolveSteps (ws : Workspace) (last : LastStep) (p : Path) (steps : List String) :
    Except IoError Target :=
  match p.fault? with
  | some e => .error e
  | none => ws.tree.resolveFrom last FileTree.maxLinks (ws.start p) steps

def resolve (ws : Workspace) (last : LastStep) (p : Path) : Except IoError Target :=
  ws.resolveSteps last p p.steps

def resolveTrimmed (ws : Workspace) (last : LastStep) (p : Path) : Except IoError Target :=
  ws.resolveSteps last p p.trimmedSteps

end Workspace

end InterfaceTables
