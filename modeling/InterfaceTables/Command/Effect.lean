import InterfaceTables.Command.Arguments
import InterfaceTables.FileTree.Resolve
import InterfaceTables.Generation.Error

/-!
What a command leaves behind, and how it shows errors.
-/

namespace InterfaceTables.Command

structure Effect where
  exitCode : Nat
  output : String
  errors : String
  workspace : Workspace

namespace Effect

def print (ws : Workspace) (text : String) : Effect := ⟨0, text, "", ws⟩

def failure (ws : Workspace) (text : String) : Effect := ⟨1, "", text, ws⟩

def misuse (ws : Workspace) (text : String) : Effect := ⟨2, "", text, ws⟩

end Effect

def successLine (text : String) : String := "✅ " ++ text ++ "\n"

def failureLine (text : String) : String := "❌ " ++ text ++ "\n"

def diffText (e : RunError) : String :=
  match e.diff? with
  | some diff => diff ++ "\n"
  | none => ""

end InterfaceTables.Command
