import InterfaceTables.Checksum
import InterfaceTables.Path
import InterfaceTables.Table.Artifact
import InterfaceTables.Text.Quoted

/-!
What a run does on its way, for the log.
-/

namespace InterfaceTables

inductive Mode where
  | write
  | check
deriving DecidableEq

def Mode.text : Mode → String
  | .write => "Write"
  | .check => "Check"

inductive Event where
  | loaded (file : Path) (interface : String) (mappings : Nat)
  | wrote (path : Path)
  | upToDate (path : Path)
  | stale (kind : ArtifactKind) (path : Path)
  | finished (mode : Mode) (interfaces : Nat) (header source : Checksum)
deriving DecidableEq

def Event.loaderTarget : String := "astarte_interface_codegen::loader: "
def Event.emitTarget : String := "astarte_interface_codegen::emit: "

def Event.text : Event → String
  | .loaded file interface mappings =>
    "DEBUG " ++ loaderTarget ++ "loaded interface file=" ++ file ++ " interface=" ++ interface ++
      " mappings=" ++ toString mappings
  | .wrote path => "DEBUG " ++ emitTarget ++ "wrote artifact path=" ++ path
  | .upToDate path => "DEBUG " ++ emitTarget ++ "artifact up to date path=" ++ path
  | .stale kind path =>
    " WARN " ++ emitTarget ++ kind.text ++ " is not up to date path=" ++ path
  | .finished mode interfaces header source =>
    " INFO " ++ emitTarget ++ "generation finished mode=" ++ mode.text ++ " interfaces=" ++
      toString interfaces ++ " header=" ++ Text.quoted header.short ++ " source=" ++
      Text.quoted source.short

end InterfaceTables
