import InterfaceTables.Interface.SchemaError
import InterfaceTables.Table.Artifact
import InterfaceTables.Table.Collision

/-!
Why a run fails.
-/

namespace InterfaceTables

inductive Mismatch where
  | missingDirectory
  | missingArtifact (kind : ArtifactKind)
  | unreadable (kind : ArtifactKind) (e : IoError)
  | stale (kind : ArtifactKind) (diff : String)
deriving DecidableEq

def Mismatch.message : Mismatch → String
  | .missingDirectory => "non existent output directory"
  | .missingArtifact k => k.text ++ " does not exist"
  | .unreadable k e => k.text ++ " could not be read: " ++ e.message
  | .stale k _ => k.text ++ " is not up to date"

inductive RunError where
  | schema (e : SchemaError)
  | collision (c : Collision)
  | write (path : Path) (e : IoError)
  | check (path : Path) (m : Mismatch)
deriving DecidableEq

def RunError.message : RunError → String
  | .schema e => e.message
  | .collision c => c.message
  | .write path e => "Failed to write " ++ path ++ ": " ++ e.message
  | .check path m => "Check failed: " ++ m.message ++ " (" ++ path ++ ")"

def RunError.diff? : RunError → Option String
  | .check _ (.stale _ diff) => some diff
  | _ => none

end InterfaceTables
