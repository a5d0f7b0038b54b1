import SessionVault.Settings.Placeholder

namespace SessionVault

namespace Path

def join (directory name : String) : String :=
  if directory = "" ∨ directory.toList.getLast? = some '/' then directory ++ name
  else directory ++ "/" ++ name

def isAbsolute (path : String) : Bool := path.toList.head? == some '/'

end Path

structure Application where
  name : String

namespace Application

open Settings (Environment)

def directoryVariable (a : Application) : String :=
  String.ofList (a.name.toList.map Char.toUpper) ++ "_CONFIG_DIR"

def userFileName : String := "config.toml"

def projectFileName (a : Application) : String := a.name ++ ".toml"

def platformDirectory? (env : Environment) : Option String :=
  match (env "XDG_CONFIG_HOME").filter Path.isAbsolute with
  | some directory => some directory
  | none => ((env "HOME").filter (· ≠ "")).map fun home => Path.join home ".config"

def userDirectory? (a : Application) (env : Environment) : Option String :=
  match (env a.directoryVariable).filter (· ≠ "") with
  | some directory => some directory
  | none => (platformDirectory? env).map fun base => Path.join base a.name

def userFile? (a : Application) (env : Environment) : Option String :=
  (a.userDirectory? env).map fun directory => Path.join directory userFileName

def projectFile (a : Application) (directory : Option String) : String :=
  match directory with
  | none => a.projectFileName
  | some directory => Path.join directory a.projectFileName

end Application

end SessionVault
