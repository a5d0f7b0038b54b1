import SessionVault.Config.Basic
import SessionVault.Settings.Error
import SessionVault.Toml.Fields
import SessionVault.Toml.Printer
import SessionVault.Toml.Reader

namespace SessionVault

open Toml

namespace PoolConfig

def fieldNames : List String :=
  ["max_active", "max_idle", "min_idle", "test_on_borrow", "test_on_return", "test_while_idle",
    "num_tests_per_eviction", "time_between_eviction_ms"]

def ofToml? (v : Toml) : Option PoolConfig := do
  let fs ← v.fields? fieldNames
  let dflt : PoolConfig := {}
  return {
    maxActive := ← field "max_active" uint64? dflt.maxActive fs
    maxIdle := ← field "max_idle" uint64? dflt.maxIdle fs
    minIdle := ← field "min_idle" uint64? dflt.minIdle fs
    testOnBorrow := ← field "test_on_borrow" bool? dflt.testOnBorrow fs
    testOnReturn := ← field "test_on_return" bool? dflt.testOnReturn fs
    testWhileIdle := ← field "test_while_idle" bool? dflt.testWhileIdle fs
    testsPerEviction := ← field "num_tests_per_eviction" uint64? dflt.testsPerEviction fs
    evictionInterval := ← field "time_between_eviction_ms" uint64? dflt.evictionInterval fs }

def lines? (c : PoolConfig) : Option (List Expression) := do
  return [
    pair "max_active" (← ofUInt64? c.maxActive),
    pair "max_idle" (← ofUInt64? c.maxIdle),
    pair "min_idle" (← ofUInt64? c.minIdle),
    pair "test_on_borrow" (.bool c.testOnBorrow),
    pair "test_on_return" (.bool c.testOnReturn),
    pair "test_while_idle" (.bool c.testWhileIdle),
    pair "num_tests_per_eviction" (← ofUInt64? c.testsPerEviction),
    pair "time_between_eviction_ms" (← ofUInt64? c.evictionInterval)]

end PoolConfig

namespace RedisConfig

def fieldNames : List String :=
  ["hosts", "topology", "password", "database", "timeout_ms", "sentinel_master",
    "max_redirections", "pool"]

def ofToml? (v : Toml) : Option RedisConfig := do
  let fs ← v.fields? fieldNames
  let dflt : RedisConfig := {}
  return {
    hosts := ← field "hosts" strings? dflt.hosts fs
    topology := ← field "topology" (fun v => v.choice?.bind Topology.ofName?) dflt.topology fs
    password := ← field "password" (fun v => v.string?.map some) dflt.password fs
    database := ← field "database" integer64? dflt.database fs
    timeout := ← field "timeout_ms" uint64? dflt.timeout fs
    sentinelMaster := ← field "sentinel_master" string? dflt.sentinelMaster fs
    maxRedirections := ← field "max_redirections" uint32? dflt.maxRedirections fs
    pool := ← field "pool" PoolConfig.ofToml? dflt.pool fs }

def lines? (c : RedisConfig) : Option (List Expression) := do
  let own := [
    .header ⟨[], "redis"⟩,
    pair "hosts" (ofStrings c.hosts),
    pair "topology" (.string c.topology.name)]
  let password := c.password.elim [] fun p => [pair "password" (.string p)]
  let others := [
    pair "database" (.integer c.database),
    pair "timeout_ms" (← ofUInt64? c.timeout),
    pair "sentinel_master" (.string c.sentinelMaster),
    pair "max_redirections" (.integer (Int64.ofNat c.maxRedirections.toNat)),
    .header ⟨["redis"], "pool"⟩]
  return own ++ password ++ others ++ (← c.pool.lines?)

end RedisConfig

namespace LocalCacheConfig

def fieldNames : List String := ["enabled", "expiry_job_interval_secs", "resync_job_interval_secs"]

def ofToml? (v : Toml) : Option LocalCacheConfig := do
  let fs ← v.fields? fieldNames
  let dflt : LocalCacheConfig := {}
  return {
    enabled := ← field "enabled" bool? dflt.enabled fs
    expiryInterval := ← field "expiry_job_interval_secs" uint64? dflt.expiryInterval fs
    resyncInterval := ← field "resync_job_interval_secs" uint64? dflt.resyncInterval fs }

def lines? (c : LocalCacheConfig) : Option (List Expression) := do
  return [
    .header ⟨[], "local_cache"⟩,
    pair "enabled" (.bool c.enabled),
    pair "expiry_job_interval_secs" (← ofUInt64? c.expiryInterval),
    pair "resync_job_interval_secs" (← ofUInt64? c.resyncInterval)]

end LocalCacheConfig

namespace SessionConfig

def fieldNames : List String :=
  ["key_prefix", "persist_policies", "timeout_secs", "min_expire_secs", "null_session",
    "manual_dirty_tracking", "dirty_tracking_key"]

def ofToml? (v : Toml) : Option SessionConfig := do
  let fs ← v.fields? fieldNames
  let dflt : SessionConfig := {}
  let readNull (v : Toml) : Option NullSession := v.choice?.bind NullSession.ofName?
  return {
    keyPrefix := ← field "key_prefix" string? dflt.keyPrefix fs
    policies := ← field "persist_policies" strings? dflt.policies fs
    timeout := ← field "timeout_secs" uint64? dflt.timeout fs
    minExpire := ← field "min_expire_secs" uint64? dflt.minExpire fs
    nullSession := ← field "null_session" readNull dflt.nullSession fs
    manualTracking := ← field "manual_dirty_tracking" bool? dflt.manualTracking fs
    trackingKey := ← field "dirty_tracking_key" string? dflt.trackingKey fs }

def lines? (c : SessionConfig) : Option (List Expression) := do
  return [
    .header ⟨[], "session"⟩,
    pair "key_prefix" (.string c.keyPrefix),
    pair "persist_policies" (ofStrings c.policies),
    pair "timeout_secs" (← ofUInt64? c.timeout),
    pair "min_expire_secs" (← ofUInt64? c.minExpire),
    pair "null_session" (.string c.nullSession.name),
    pair "manual_dirty_tracking" (.bool c.manualTracking),
    pair "dirty_tracking_key" (.string c.trackingKey)]

end SessionConfig

namespace Config

def ofEntries? (entries : List (String × Toml)) : Option Config := do
  return {
    redis := ← field "redis" (fun v => (RedisConfig.ofToml? v).map some) none entries
    localCache := ← field "local_cache" (fun v => (LocalCacheConfig.ofToml? v).map some) none entries
    session := ← field "session" (fun v => (SessionConfig.ofToml? v).map some) none entries }

def ofText (s : String) : Except ConfigError Config :=
  match (Toml.ofText? s).bind ofEntries? with
  | some c => .ok c
  | none => .error .malformed

def lines? (c : Config) : Option (List Expression) := do
  let redis ← c.redis.elim (some []) RedisConfig.lines?
  let localCache ← c.localCache.elim (some []) LocalCacheConfig.lines?
  let session ← c.session.elim (some []) SessionConfig.lines?
  return redis ++ localCache ++ session

def text (c : Config) : Except ConfigError String :=
  match c.lines? with
  | some lines => .ok (String.ofList (writeAll lines))
  | none => .error .unwritable

def ofTexts : List String → Except ConfigError (List Config)
  | [] => return []
  | s :: rest => do
    let c ← ofText s
    return c :: (← ofTexts rest)

end Config

end SessionVault
