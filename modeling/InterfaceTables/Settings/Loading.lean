import InterfaceTables.Settings.Decode
import InterfaceTables.Settings.Layer

/-!
Loading settings: the layers in their order, each laid over those before it.
-/

namespace InterfaceTables

namespace Settings

def localFiles : List Path := ["interfaces.toml", ".interfaces.toml", "config/interfaces.toml"]

def userDirectory? (env : Environment) : Option Path :=
  let configured := (env.lookup "XDG_CONFIG_HOME").filter Path.isAbsolute
  let home := (env.lookup "HOME").filter (!·.isEmpty)
  configured.or (home.map (Path.join · ".config"))

def userFile? (ws : Workspace) (env : Environment) : Option Path :=
  ((userDirectory? env).map fun dir => (dir.join "interfaces").join "interfaces.toml").filter
    fun file => (ws.stat file).toBool

/-- The files with settings in their order, each with whether it must be there. -/
def files (ws : Workspace) (env : Environment) (explicit : Option Path) : List (Path × Bool) :=
  localFiles.map (·, false) ++ (userFile? ws env).toList.map (·, false) ++
    explicit.toList.map (·, true)

def overlayFiles (ws : Workspace) (fields : Setting.Fields) :
    List (Path × Bool) → Except SettingsError Setting.Fields
  | [] => .ok fields
  | (file, required) :: rest =>
    match ws.fileLayer required file with
    | .error e => .error e
    | .ok layer => overlayFiles ws (Setting.overlay fields layer) rest

/-- The settings in effect: those of the files, and over them those of the environment. -/
def effective (ws : Workspace) (env : Environment) (explicit : Option Path) :
    Except SettingsError Settings :=
  match overlayFiles ws [] (files ws env explicit) with
  | .error e => .error e
  | .ok fields => Settings.ofFields (Setting.overlay fields env.layer)

end Settings

end InterfaceTables
