import SessionVault.Remote.Retry

namespace SessionVault.Remote

def words : Command → List Octets
  | .set key value => [Octets.ofText "SET", Octets.ofText key, value]
  | .setIfAbsent key value => [Octets.ofText "SETNX", Octets.ofText key, value]
  | .expire key seconds =>
    [Octets.ofText "EXPIRE", Octets.ofText key, Octets.ascii (Decimal.numeral seconds.toNat)]
  | .get key => [Octets.ofText "GET", Octets.ofText key]
  | .delete key => [Octets.ofText "DEL", Octets.ofText key]
  | .exists key => [Octets.ofText "EXISTS", Octets.ofText key]
  | .keys pattern => [Octets.ofText "KEYS", Octets.ofText pattern]

def read (c : Command) (r : Reply) : c.Reply :=
  match r.answer? c with
  | some a => .ok a
  | none => .error (.unexpectedReply c.operation.name)

def serve (policy : RetryPolicy) (c : Command) : Link c.Reply := do
  match ← retry policy (send (words c)) with
  | .ok r => return read c r
  | .error e => return .error e

end SessionVault.Remote
