import SessionVault.Decimal.Plain
import SessionVault.Settings.Topology

namespace SessionVault

inductive HostFault where
  | noPort
  | emptyHost
  | invalidPort
  | zeroPort
  deriving DecidableEq

def HostFault.reason : HostFault → String
  | .noPort => "expected host:port"
  | .emptyHost => "empty host"
  | .invalidPort => "port is not a number in 0-65535"
  | .zeroPort => "port must be non-zero"

inductive FieldFault where
  | noMaster
  | negativeDatabase (n : Int64)
  | noConnection
  | tooManyIdle (maxIdle maxActive : UInt64)
  | tooManyKept (minIdle maxIdle : UInt64)
  | noEvictionInterval
  | noTimeout
  | noTrackingKey
  deriving DecidableEq

def FieldFault.field : FieldFault → String
  | .noMaster => "redis.sentinel_master"
  | .negativeDatabase _ => "redis.database"
  | .noConnection => "redis.pool.max_active"
  | .tooManyIdle _ _ => "redis.pool.max_idle"
  | .tooManyKept _ _ => "redis.pool.min_idle"
  | .noEvictionInterval => "redis.pool.time_between_eviction_ms"
  | .noTimeout => "session.timeout_secs"
  | .noTrackingKey => "session.dirty_tracking_key"

def FieldFault.reason : FieldFault → String
  | .noMaster => "sentinel topology needs a master group name"
  | .negativeDatabase n =>
    "must be non-negative, got " ++ String.ofList (Decimal.signed n.toInt)
  | .noConnection => "must be at least 1"
  | .tooManyIdle maxIdle maxActive =>
    toString maxIdle.toNat ++ " exceeds max_active " ++ toString maxActive.toNat
  | .tooManyKept minIdle maxIdle =>
    toString minIdle.toNat ++ " exceeds max_idle " ++ toString maxIdle.toNat
  | .noEvictionInterval => "must be non-zero"
  | .noTimeout => "must be non-zero"
  | .noTrackingKey => "required when manual_dirty_tracking is enabled"

inductive ConfigError where
  | unreadable (path : String)
  | malformed
  | unwritable
  | invalidHost (value : String) (fault : HostFault)
  | missingHosts (topology : Topology)
  | unknownPolicy (name : String)
  | invalid (fault : FieldFault)
  deriving DecidableEq

def ConfigError.message : ConfigError → String
  | .unreadable path => "cannot read " ++ path ++ ": "
  | .malformed => "malformed TOML: "
  | .unwritable => "cannot encode config as TOML: "
  | .invalidHost value fault => "invalid redis host '" ++ value ++ "': " ++ fault.reason
  | .missingHosts topology => "no redis hosts configured for " ++ topology.name ++ " topology"
  | .unknownPolicy name => "invalid session policy '" ++ name ++ "'"
  | .invalid fault => "invalid value for '" ++ fault.field ++ "': " ++ fault.reason

end SessionVault
