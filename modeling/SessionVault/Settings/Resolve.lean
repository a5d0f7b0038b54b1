import SessionVault.Buffer.Basic
import SessionVault.Config.Basic
import SessionVault.Settings.Endpoint
import SessionVault.Settings.Placeholder
import SessionVault.Settings.Policy

namespace SessionVault

structure RedisSettings where
  topology : Topology
  hosts : List Endpoint
  password : Option String
  database : Int64
  /-- Milliseconds, never below two seconds. -/
  timeout : UInt64
  sentinelMaster : String
  maxRedirections : UInt32
  pool : PoolConfig
  deriving DecidableEq

structure Settings where
  redis : RedisSettings
  localCache : LocalCacheConfig
  session : SessionSettings
  deriving DecidableEq

namespace Settings

def require (condition : Bool) (fault : FieldFault) : Except ConfigError Unit :=
  if condition then .ok () else .error (.invalid fault)

def checkPool (p : PoolConfig) : Except ConfigError Unit := do
  require (p.maxActive != 0) .noConnection
  require (p.maxIdle ≤ p.maxActive) (.tooManyIdle p.maxIdle p.maxActive)
  require (p.minIdle ≤ p.maxIdle) (.tooManyKept p.minIdle p.maxIdle)
  require (p.evictionInterval != 0) .noEvictionInterval

def ofRedis (env : Environment) (c : RedisConfig) : Except ConfigError RedisSettings := do
  let hosts ← Endpoint.ofEntries (c.hosts.map (interpolate env))
  if hosts = [] then throw (.missingHosts c.topology)
  let master := interpolate env c.sentinelMaster
  require (c.topology != .sentinel || Text.trim master.toList != []) .noMaster
  require (decide (0 ≤ c.database)) (.negativeDatabase c.database)
  checkPool c.pool
  return {
    topology := c.topology
    hosts := hosts
    password := (c.password.map (interpolate env)).filter (· != "")
    database := c.database
    timeout := max 2000 c.timeout
    sentinelMaster := master
    maxRedirections := c.maxRedirections
    pool := c.pool }

def ofSession (env : Environment) (c : SessionConfig) : Except ConfigError SessionSettings := do
  require (c.timeout != 0) .noTimeout
  require (!c.manualTracking || c.trackingKey != "") .noTrackingKey
  return {
    keyPrefix := interpolate env c.keyPrefix
    policies := ← PersistPolicies.ofNames c.policies
    timeout := c.timeout
    minExpire := c.minExpire
    nullSession := c.nullSession
    trackingKey := if c.manualTracking then some c.trackingKey else none }

def resolve (env : Environment) (c : Config) : Except ConfigError Settings := do
  let redis ← ofRedis env (c.redis.getD {})
  let session ← ofSession env (c.session.getD {})
  return ⟨redis, c.localCache.getD {}, session⟩

/-- The buffer for these settings.  Its entries live as long as a session of the default kind. -/
def bufferConfig (s : Settings) : BufferConfig where
  ttl := .ofSeconds (max s.session.timeout s.session.minExpire)
  resyncInterval := .ofSeconds s.localCache.resyncInterval
  expiryInterval := .ofSeconds s.localCache.expiryInterval

end Settings

end SessionVault
