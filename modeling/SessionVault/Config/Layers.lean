import SessionVault.Config.Location
import SessionVault.Config.Text
import SessionVault.Octets

namespace SessionVault

inductive Found where
  | missing
  | directory
  | locked
  | file (content : Octets)
  deriving DecidableEq

namespace Found

def isFile : Found → Bool
  | .missing | .directory => false
  | .locked | .file _ => true

def text? : Found → Option String
  | .missing | .directory | .locked => none
  | .file content => Octets.text? content

end Found

def Config.load (path : String) (found : Found) : Except ConfigError Config :=
  match found.text? with
  | some text => ofText text
  | none => .error (.unreadable path)

inductive LayerKind where
  | user
  | project
  deriving DecidableEq

structure Layer where
  kind : LayerKind
  path : String
  found : Found
  deriving DecidableEq

inductive ConfigWarning where
  | skipped (path : String) (e : ConfigError)
  | plainPassword
  deriving DecidableEq

def ConfigWarning.message : ConfigWarning → String
  | .skipped path e => "skipped " ++ path ++ " (" ++ e.message
  | .plainPassword =>
    "redis.password is stored as plaintext; reference an environment variable such as " ++
      "\"$\x7bREDIS_PASSWORD\x7d\" instead"

namespace Layer

def outcome (l : Layer) : Option (Except ConfigError Config) :=
  if l.found.isFile then some (Config.load l.path l.found) else none

def config? (l : Layer) : Option Config :=
  match l.outcome with
  | some (.ok c) => some c
  | _ => none

def warning? (l : Layer) : Option ConfigWarning :=
  match l.outcome with
  | some (.error e) => some (.skipped l.path e)
  | _ => none

end Layer

structure Source where
  kind : LayerKind
  path : String
  loaded : Bool
  deriving DecidableEq

structure LoadedConfig where
  config : Config := {}
  sources : List Source := []
  warnings : List ConfigWarning := []

namespace LoadedConfig

def add (loaded : LoadedConfig) (l : Layer) : LoadedConfig where
  config := (l.config?.map fun c => c.onTopOf loaded.config).getD loaded.config
  sources := loaded.sources ++ [⟨l.kind, l.path, l.config?.isSome⟩]
  warnings := loaded.warnings ++ l.warning?.toList

def checkPassword (loaded : LoadedConfig) : LoadedConfig :=
  if loaded.config.redis.any RedisConfig.hasPlainPassword then
    { loaded with warnings := loaded.warnings ++ [.plainPassword] }
  else loaded

def ofLayers (layers : List Layer) : LoadedConfig := (layers.foldl add {}).checkPassword

def loadedFrom (loaded : LoadedConfig) : List String :=
  (loaded.sources.filter (·.loaded)).map (·.path)

end LoadedConfig

namespace Application

open Settings (Environment)

/-- The layers of an application, the lowest first.  The directory of the user may be given instead of
being looked for, and if there is none to be found the project's layer is the only one. -/
def layers (a : Application) (env : Environment) (project user : Option String)
    (look : String → Found) : List Layer :=
  let userFile := (user.map fun directory => Path.join directory userFileName).or (a.userFile? env)
  (userFile.map fun path => ⟨.user, path, look path⟩).toList ++
    [⟨.project, a.projectFile project, look (a.projectFile project)⟩]

def load (a : Application) (env : Environment) (project user : Option String)
    (look : String → Found) : LoadedConfig :=
  .ofLayers (a.layers env project user look)

end Application

end SessionVault
