import SessionVault.Settings.Session
import SessionVault.Settings.Topology
import SessionVault.Text.Split

namespace SessionVault

structure PoolConfig where
  maxActive : UInt64 := 10
  maxIdle : UInt64 := 5
  minIdle : UInt64 := 1
  testOnBorrow : Bool := true
  testOnReturn : Bool := true
  testWhileIdle : Bool := true
  testsPerEviction : UInt64 := 10
  /-- Milliseconds between two evictions. -/
  evictionInterval : UInt64 := 60000
  deriving DecidableEq

structure RedisConfig where
  hosts : List String := ["127.0.0.1:6379"]
  topology : Topology := .standalone
  password : Option String := none
  database : Int64 := 0
  /-- Milliseconds. -/
  timeout : UInt64 := 2000
  sentinelMaster : String := "mymaster"
  maxRedirections : UInt32 := 5
  pool : PoolConfig := {}
  deriving DecidableEq

structure LocalCacheConfig where
  enabled : Bool := false
  expiryInterval : UInt64 := 3600
  resyncInterval : UInt64 := 600
  deriving DecidableEq

structure SessionConfig where
  keyPrefix : String := ""
  policies : List String := []
  timeout : UInt64 := 1800
  minExpire : UInt64 := 1800
  nullSession : NullSession := .error
  manualTracking : Bool := false
  trackingKey : String := "__changed__"
  deriving DecidableEq

structure Config where
  redis : Option RedisConfig := none
  localCache : Option LocalCacheConfig := none
  session : Option SessionConfig := none
  deriving DecidableEq

namespace Config

def empty : Config := {}

/-- One configuration over another: each section it has replaces the other's as a whole. -/
def onTopOf (upper lower : Config) : Config where
  redis := upper.redis.or lower.redis
  localCache := upper.localCache.or lower.localCache
  session := upper.session.or lower.session

def merge (layers : List Config) : Config := layers.foldl (fun lower upper => upper.onTopOf lower) empty

end Config

def RedisConfig.hasPlainPassword (c : RedisConfig) : Bool :=
  match c.password with
  | none => false
  | some p => p ≠ "" ∧ Text.splitMark '$' '\x7b' p.toList = none

end SessionVault
