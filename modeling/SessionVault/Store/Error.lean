namespace SessionVault

inductive StoreError where
  /-- The remote store could not be reached in any of the attempts. -/
  | unreachable (attempts : Nat) (message : String)
  /-- The remote store, or the client, reports something that another attempt will not mend. -/
  | protocol (message : String)
  | invalidPattern (pattern : String)
  | unexpectedReply (operation : String)
  /-- The pause before another attempt was cut short. -/
  | interrupted
  | configuration (message : String)
  | pool (message : String)
  deriving DecidableEq

namespace StoreError

def transient (message : String) : StoreError := .unreachable 1 message

def isTransient : StoreError → Bool
  | .unreachable _ _ => true
  | _ => false

def message : StoreError → String
  | .unreachable attempts message =>
    "cache unreachable after " ++ toString attempts ++ " attempt(s): " ++ message
  | .protocol message => "cache protocol error: " ++ message
  | .invalidPattern pattern => "cache protocol error: invalid key pattern '" ++ pattern ++ "': "
  | .unexpectedReply operation => "cache protocol error: unexpected " ++ operation ++ " reply: "
  | .interrupted => "interrupted while waiting to retry"
  | .configuration message => "invalid cache configuration: " ++ message
  | .pool message => "connection pool error: " ++ message

end StoreError

end SessionVault
