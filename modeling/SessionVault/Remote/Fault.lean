import SessionVault.Store.Error

namespace SessionVault.Remote

inductive Fault where
  | reported (kind description : String) (detail : Option String)
  | io (text : String)
  deriving DecidableEq

/-- The kinds of faults that pass: the connection is lost, keys are moving between the nodes of a
cluster, or the server is not ready yet. -/
def passingKinds : List String :=
  ["IoError", "Moved", "Ask", "TryAgain", "ClusterDown", "MasterDown", "BusyLoadingError"]

namespace Fault

def isTransient : Fault → Bool
  | .reported kind _ _ => passingKinds.contains kind
  | .io _ => true

def text : Fault → String
  | .reported kind description none => description ++ "- " ++ kind
  | .reported kind description (some detail) => description ++ " - " ++ kind ++ ": " ++ detail
  | .io text => text

def toStoreError (f : Fault) : StoreError :=
  if f.isTransient then .transient f.text else .protocol f.text

end Fault

end SessionVault.Remote
